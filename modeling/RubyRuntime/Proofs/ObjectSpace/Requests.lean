import Mathlib.Logic.Basic
import RubyRuntime.ObjectSpace.Basic

/-!
# Requests for ids

What one request for an id does to the heap and the table of a space. `held?` is the id that a
symbol or object has so far. One that has an id is answered with it and nothing changes; any other
draws the next id of the counter, which it alone holds from then on.
-/
namespace RubyRuntime

private theorem lookup_replace {β : Type} (entries : List (Nat × β)) (key : Nat) (value : β)
    (k : Nat) :
    ((key, value) :: entries.filter fun entry => entry.1 ≠ key).lookup k =
      if k = key then some value else entries.lookup k := by
  by_cases hk : k = key
  · simp [hk]
  · rw [List.lookup_cons, beq_false_of_ne hk, if_neg hk]
    show (entries.filter _).lookup k = entries.lookup k
    induction entries with
    | nil => rfl
    | cons entry rest ih =>
        by_cases hentry : entry.1 = key
        · rw [List.filter_cons_of_neg (by simpa using hentry), ih, List.lookup_cons,
            beq_false_of_ne (hentry ▸ hk)]
        · rw [List.filter_cons_of_pos (by simpa using hentry), List.lookup_cons, ih,
            ← List.lookup_cons]

namespace Heap

/-- The two cannot be told apart by asking about objects. -/
structure Same (a b : Heap) : Prop where
  nextSerial_eq : a.nextSerial = b.nextSerial
  state_eq : ∀ o, a.state o = b.state o

theorem Same.readId_eq {a b : Heap} (h : a.Same b) (o : ObjectRef) : a.readId o = b.readId o := by
  rw [readId, readId, h.state_eq]

theorem state_setState (heap : Heap) (o : ObjectRef) (state : ObjectState) (other : ObjectRef) :
    (heap.setState o state).state other =
      if other.serial = o.serial then state else heap.state other := by
  rw [Heap.state, setState, lookup_replace]
  split <;> rfl

theorem readId_setState (heap : Heap) (o : ObjectRef) (state : ObjectState) (other : ObjectRef) :
    (heap.setState o state).readId other =
      if other.serial = o.serial then state.id else heap.readId other := by
  rw [readId, state_setState, apply_ite ObjectState.id]
  rfl

theorem state_eq_of_serial (heap : Heap) {o other : ObjectRef} (h : other.serial = o.serial) :
    heap.state other = heap.state o := by
  rw [state, state, h]

theorem readId_share (heap : Heap) (o other : ObjectRef) :
    (heap.share o).readId other = heap.readId other := by
  rw [share, readId_setState]
  split
  · next h => rw [readId, heap.state_eq_of_serial h]
  · rfl

theorem lockedBy_share (heap : Heap) (o other : ObjectRef) :
    ((heap.share o).state other).lockedBy = (heap.state other).lockedBy := by
  rw [share, state_setState]
  split
  · next h => rw [heap.state_eq_of_serial h]
  · rfl

theorem same_unlock {heap : Heap} {o : ObjectRef} (me : Nat)
    (hfree : (heap.state o).lockedBy = none) :
    ((heap.setIdLock o (some me)).setIdLock o none).Same heap where
  nextSerial_eq := rfl
  state_eq := by
    intro other
    rw [setIdLock, state_setState]
    split
    · next h =>
      rw [setIdLock, state_setState, if_pos rfl, heap.state_eq_of_serial h, ← hfree]
    · next h => rw [setIdLock, state_setState, if_neg h]

end Heap

namespace IdTable

def held? (heap : Heap) (ids : IdTable) : IdTarget → Option Nat
  | .symbol name => ids.symbols.lookup name
  | .object o => if heap.readId o = 0 then none else some (heap.readId o)

theorem held?_congr {heap after : Heap} (hread : ∀ o, after.readId o = heap.readId o)
    (ids : IdTable) (target : IdTarget) : ids.held? after target = ids.held? heap target := by
  cases target with
  | symbol name => rfl
  | object o => rw [held?, held?, hread]

theorem next?_eq (table : IdTable) :
    table.next? = if table.counter + ObjectId.counterStride < ObjectId.wordBound then
      some (table.counter + ObjectId.counterStride,
        { table with counter := table.counter + ObjectId.counterStride })
    else none :=
  rfl

theorem le_of_next?_eq_none {table : IdTable} (h : table.next? = none) :
    ObjectId.wordBound ≤ table.counter + ObjectId.counterStride := by
  apply Nat.le_of_not_lt
  intro hlt
  rw [next?_eq, if_pos hlt] at h
  cases h

theorem mem_registry_register {id : Nat} {target : IdTarget} {table : IdTable}
    {entry : Nat × IdTarget} :
    entry ∈ (table.register id target).registry ↔
      entry = (id, target) ∨ entry ∈ table.registry ∧ entry.1 ≠ id := by
  simp [register]

end IdTable

def IdTarget.slot : IdTarget → Nat ⊕ String
  | .object o => .inl o.serial
  | .symbol name => .inr name

theorem IdTable.held?_of_slot (heap : Heap) (ids : IdTable) {a b : IdTarget}
    (h : a.slot = b.slot) : ids.held? heap a = ids.held? heap b := by
  cases a with
  | object o =>
      cases b with
      | object p => rw [held?, held?, Heap.readId, heap.state_eq_of_serial (Sum.inl.inj h)]; rfl
      | symbol name => cases h
  | symbol name =>
      cases b with
      | object p => cases h
      | symbol other => rw [Sum.inr.inj h]

def IdTarget.value : IdTarget → Value
  | .object o => .object o
  | .symbol name => .symbol name

/-- The counter has moved on to `id`, which `target` holds from now on. -/
structure Drawn (target : IdTarget) (id : Nat) (heap after : Heap) (ids ids' : IdTable) :
    Prop where
  id_eq : id = ids.counter + ObjectId.counterStride
  id_lt : id < ObjectId.wordBound
  counter_eq : ids'.counter = id
  held_eq : ∀ other,
    ids'.held? after other = if other.slot = target.slot then some id else ids.held? heap other
  mem_registry : ∀ entry,
    entry ∈ ids'.registry ↔ entry = (id, target) ∨ entry ∈ ids.registry ∧ entry.1 ≠ id
  nextSerial_eq : after.nextSerial = heap.nextSerial
  lockedBy_eq : ∀ o, (after.state o).lockedBy = (heap.state o).lockedBy

/-- The ways in which a request for the id of `target` can end, with the answer, the heap and the
table afterwards. -/
inductive Requested (target : IdTarget) (heap : Heap) (ids : IdTable) :
    Option Nat → Heap → IdTable → Prop where
  | held {id : Nat} (h : ids.held? heap target = some id) :
    Requested target heap ids (some id) heap ids
  | exhausted {after : Heap} (h : ids.held? heap target = none)
    (hcounter : ObjectId.wordBound ≤ ids.counter + ObjectId.counterStride)
    (hsame : after.Same heap) : Requested target heap ids none after ids
  | drawn {id : Nat} {after : Heap} {ids' : IdTable} (h : ids.held? heap target = none)
    (hdrawn : Drawn target id heap after ids ids') :
    Requested target heap ids (some id) after ids'

namespace Requested

variable {target : IdTarget} {heap after : Heap} {ids ids' : IdTable} {id? : Option Nat}

theorem of_held (h : Requested target heap ids id? after ids') {id : Nat}
    (hheld : ids.held? heap target = some id) : id? = some id ∧ after = heap ∧ ids' = ids := by
  cases h with
  | held hid => exact ⟨hid.symm.trans hheld, rfl, rfl⟩
  | exhausted hnone => cases hnone.symm.trans hheld
  | drawn hnone => cases hnone.symm.trans hheld

theorem of_room (h : Requested target heap ids id? after ids')
    (hnone : ids.held? heap target = none)
    (hcounter : ids.counter + ObjectId.counterStride < ObjectId.wordBound) :
    ∃ id, id? = some id ∧ Drawn target id heap after ids ids' := by
  cases h with
  | held hid => cases hid.symm.trans hnone
  | exhausted _ hused => exact absurd hcounter (Nat.not_lt.mpr hused)
  | drawn _ hdrawn => exact ⟨_, rfl, hdrawn⟩

theorem of_exhausted (h : Requested target heap ids id? after ids')
    (hcounter : ObjectId.wordBound ≤ ids.counter + ObjectId.counterStride) :
    id? = ids.held? heap target ∧ after.Same heap ∧ ids' = ids := by
  cases h with
  | held hid => exact ⟨hid.symm, ⟨rfl, fun _ => rfl⟩, rfl⟩
  | exhausted hnone _ hsame => exact ⟨hnone.symm, hsame, rfl⟩
  | drawn _ hdrawn =>
      have hlt := hdrawn.id_lt
      rw [hdrawn.id_eq] at hlt
      exact absurd hlt (Nat.not_lt.mpr hcounter)

theorem held?_of_held (h : Requested target heap ids id? after ids') {other : IdTarget} {id : Nat}
    (hheld : ids.held? heap other = some id) : ids'.held? after other = some id := by
  cases h with
  | held => exact hheld
  | exhausted _ _ hsame =>
      rw [IdTable.held?_congr hsame.readId_eq]
      exact hheld
  | drawn hnone hdrawn =>
      rw [hdrawn.held_eq, if_neg, hheld]
      intro hslot
      cases hnone.symm.trans ((ids.held?_of_slot heap hslot).symm.trans hheld)

theorem held?_answer (h : Requested target heap ids id? after ids') {id : Nat}
    (hid : id? = some id) : ids'.held? after target = some id := by
  cases h with
  | held hheld => exact hheld.trans hid
  | exhausted => cases hid
  | drawn _ hdrawn =>
      rw [hdrawn.held_eq, if_pos rfl]
      exact hid

theorem nextSerial_eq (h : Requested target heap ids id? after ids') :
    after.nextSerial = heap.nextSerial := by
  cases h with
  | held => rfl
  | exhausted _ _ hsame => exact hsame.nextSerial_eq
  | drawn _ hdrawn => exact hdrawn.nextSerial_eq

theorem lockedBy_eq (h : Requested target heap ids id? after ids') (o : ObjectRef) :
    (after.state o).lockedBy = (heap.state o).lockedBy := by
  cases h with
  | held => rfl
  | exhausted _ _ hsame => rw [hsame.state_eq]
  | drawn _ hdrawn => exact hdrawn.lockedBy_eq o

theorem exists_answer (h : Requested target heap ids id? after ids')
    (hcounter : ids.counter + ObjectId.counterStride < ObjectId.wordBound) :
    ∃ id, id? = some id := by
  cases hheld : ids.held? heap target with
  | some id => exact ⟨id, (h.of_held hheld).1⟩
  | none =>
      obtain ⟨id, hid, -⟩ := h.of_room hheld hcounter
      exact ⟨id, hid⟩

end Requested

section ObjectRequests

variable (me : Nat) {o : ObjectRef} {heap : Heap} {table : IdTable}

private theorem objectId?_of_exhausted (h : heap.readId o = 0)
    (hfree : (heap.state o).lockedBy = none) (hnext : table.next? = none) :
    ∃ after, objectId? me o heap table = (none, after, table) ∧ after.Same heap := by
  by_cases hshared : heap.isShared o
  · have hread : (heap.setIdLock o (some me)).readId o = 0 := by
      rw [Heap.setIdLock, Heap.readId_setState, if_pos rfl]
      exact h
    refine ⟨(heap.setIdLock o (some me)).setIdLock o none, ?_, Heap.same_unlock me hfree⟩
    simp [objectId?, IdRequest.run, IdRequest.step, h, hshared, hfree, hread, hnext]
  · refine ⟨heap, ?_, rfl, fun _ => rfl⟩
    simp [objectId?, IdRequest.run, IdRequest.step, h, hshared, hnext]

/-- A shared object is written under its lock, any other as it is; the heap ends the same. -/
private theorem objectId?_of_next (h : heap.readId o = 0) (hfree : (heap.state o).lockedBy = none)
    {id : Nat} {table' : IdTable} (hnext : table.next? = some (id, table')) :
    ∃ after, objectId? me o heap table = (some id, after, table'.register id (.object o)) ∧
      after.Same (heap.writeId o id) := by
  by_cases hshared : heap.isShared o
  · have hread : (heap.setIdLock o (some me)).readId o = 0 := by
      rw [Heap.setIdLock, Heap.readId_setState, if_pos rfl]
      exact h
    refine ⟨((heap.setIdLock o (some me)).writeId o id).setIdLock o none, ?_, rfl, ?_⟩
    · simp [objectId?, IdRequest.run, IdRequest.step, h, hshared, hfree, hread, hnext]
    · intro other
      simp only [Heap.setIdLock, Heap.writeId, Heap.state_setState]
      split
      · simp only [if_true, ← hfree]
      · rfl
  · refine ⟨heap.writeId o id, ?_, rfl, fun _ => rfl⟩
    simp [objectId?, IdRequest.run, IdRequest.step, h, hshared, hnext]

private theorem drawn_object {id : Nat} {table' : IdTable} {after : Heap}
    (hnext : table.next? = some (id, table')) (hsame : after.Same (heap.writeId o id)) :
    Drawn (.object o) id heap after table (table'.register id (.object o)) := by
  rw [IdTable.next?_eq] at hnext
  split at hnext
  · next hlt =>
    cases hnext
    refine ⟨rfl, hlt, rfl, ?_, fun _ => IdTable.mem_registry_register, hsame.nextSerial_eq, ?_⟩
    · intro other
      cases other with
      | symbol name => rfl
      | object other =>
          have hread : after.readId other = if other.serial = o.serial then
              table.counter + ObjectId.counterStride else heap.readId other := by
            rw [Heap.readId, hsame.state_eq]
            exact heap.readId_setState o _ other
          simp only [IdTable.held?, hread, IdTarget.slot, Sum.inl.injEq]
          by_cases h : other.serial = o.serial
          · rw [if_pos h, if_pos h]
            exact if_neg (by simp [ObjectId.counterStride])
          · rw [if_neg h, if_neg h]
    · intro other
      rw [hsame.state_eq, Heap.writeId, Heap.state_setState]
      split
      · next h => rw [heap.state_eq_of_serial h]
      · rfl
  · cases hnext

theorem objectId?_of_readId (h : heap.readId o ≠ 0) :
    objectId? me o heap table = (some (heap.readId o), heap, table) := by
  simp [objectId?, IdRequest.run, IdRequest.step, h]

theorem objectId?_requested (hfree : (heap.state o).lockedBy = none) :
    Requested (.object o) heap table (objectId? me o heap table).1 (objectId? me o heap table).2.1
      (objectId? me o heap table).2.2 := by
  by_cases h : heap.readId o = 0
  · have hheld : table.held? heap (.object o) = none := if_pos h
    cases hnext : table.next? with
    | none =>
        obtain ⟨after, heq, hsame⟩ := objectId?_of_exhausted me h hfree hnext
        rw [heq]
        exact .exhausted hheld (IdTable.le_of_next?_eq_none hnext) hsame
    | some drawn =>
        obtain ⟨after, heq, hsame⟩ := objectId?_of_next me h hfree hnext
        rw [heq]
        exact .drawn hheld (drawn_object hnext hsame)
  · rw [objectId?_of_readId me h]
    exact .held (if_neg h)

end ObjectRequests

private theorem drawn_symbol {name : String} {heap : Heap} {table table' : IdTable} {id : Nat}
    (hnext : table.next? = some (id, table')) :
    Drawn (.symbol name) id heap heap table
      { table'.register id (.symbol name) with symbols := (name, id) :: table'.symbols } := by
  rw [IdTable.next?_eq] at hnext
  split at hnext
  · next hlt =>
    cases hnext
    refine ⟨rfl, hlt, rfl, ?_, fun _ => IdTable.mem_registry_register, rfl, fun _ => rfl⟩
    intro other
    cases other with
    | object other => rfl
    | symbol other =>
        simp only [IdTable.held?, IdTarget.slot, Sum.inr.injEq, List.lookup_cons]
        by_cases h : other = name
        · simp [h]
        · rw [if_neg h, beq_false_of_ne h]
  · cases hnext

namespace ObjectSpace

variable {φ : Type} {heap : Heap} (space : ObjectSpace φ) (me : Nat)

private theorem idOf?_symbol (name : String) :
    ∃ id?, (space.idOf? me (.symbol name) heap).1 = id?.map Int.ofNat ∧
      Requested (.symbol name) heap space.ids id? (space.idOf? me (.symbol name) heap).2.1
        (space.idOf? me (.symbol name) heap).2.2.ids := by
  cases hheld : space.ids.symbols.lookup name with
  | some id =>
      have hsymbol : space.ids.symbolId? name = some (id, space.ids) := by
        simp [IdTable.symbolId?, hheld]
      simp only [idOf?, hsymbol]
      exact ⟨some id, rfl, .held hheld⟩
  | none =>
      cases hnext : space.ids.next? with
      | none =>
          have hsymbol : space.ids.symbolId? name = none := by
            simp [IdTable.symbolId?, hheld, hnext]
          have hcounter := IdTable.le_of_next?_eq_none hnext
          simp only [idOf?, hsymbol]
          exact ⟨none, rfl, .exhausted hheld hcounter ⟨rfl, fun _ => rfl⟩⟩
      | some drawn =>
          have hsymbol : space.ids.symbolId? name = some (drawn.1,
              { drawn.2.register drawn.1 (.symbol name) with
                symbols := (name, drawn.1) :: drawn.2.symbols }) := by
            simp [IdTable.symbolId?, hheld, hnext, IdTable.register]
          simp only [idOf?, hsymbol]
          exact ⟨some drawn.1, rfl, .drawn hheld (drawn_symbol hnext)⟩

theorem idOf?_requested (target : IdTarget)
    (hfree : ∀ o, target = .object o → (heap.state o).lockedBy = none) :
    ∃ id?, (space.idOf? me target.value heap).1 = id?.map Int.ofNat ∧
      Requested target heap space.ids id? (space.idOf? me target.value heap).2.1
        (space.idOf? me target.value heap).2.2.ids := by
  cases target with
  | symbol name => exact space.idOf?_symbol me name
  | object o => exact ⟨_, rfl, objectId?_requested me (hfree o rfl)⟩

end ObjectSpace

end RubyRuntime
