import RubyRuntime.Proofs.Lookup
import RubyRuntime.Proofs.ObjectId.Encoding
import RubyRuntime.Proofs.ObjectSpace.Requests

/-!
# Ids are identities

A run of one object space: objects are allocated, shared and lost, ids are asked for, finalizers
are defined, undefined and run, and the collector sweeps. Over every run two values have the same id
exactly if they are identical, and looking an id up finds exactly the immediate, the symbol or the
live object that has it.
-/
namespace RubyRuntime

open ObjectId

variable {φ : Type}

inductive SpaceEvent (φ : Type) where
  | allocate (className : String) (payload : Option String)
  | share (o : ObjectRef)
  | die (o : ObjectRef)
  | objectId (me : Nat) (v : Value)
  | define (me : Nat) (v : Value) (finalizer : φ)
  | undefine (v : Value)
  | runPending
  | collect
  | runAll

/-- A space with the objects there have been, the dead ones among them, those that died after the
last collection, and all ids that were handed out, each with its value. -/
structure SpaceRun (φ : Type) where
  heap : Heap := {}
  space : ObjectSpace φ := {}
  objects : List ObjectRef := []
  dead : List ObjectRef := []
  unswept : List ObjectRef := []
  answers : List (Value × Int) := []

namespace SpaceRun

def isAlive (run : SpaceRun φ) (o : ObjectRef) : Bool :=
  o ∈ run.objects && o ∉ run.dead

/-- Whether a caller can still have the value. -/
def holds (run : SpaceRun φ) : Value → Bool
  | .object o => run.isAlive o
  | _ => true

def identify (me : Nat) (v : Value) (run : SpaceRun φ) : SpaceRun φ :=
  let (id?, heap, space) := run.space.idOf? me v run.heap
  { run with heap, space, answers := (id?.map (v, ·)).toList ++ run.answers }

def changeFinalizers (f : FinalizerTable φ → FinalizerTable φ) (run : SpaceRun φ) : SpaceRun φ :=
  { run with space := { run.space with finalizers := f run.space.finalizers } }

def define (me : Nat) (o : ObjectRef) (finalizer : φ) (run : SpaceRun φ) : SpaceRun φ :=
  let (id?, heap, ids) := objectId? me o run.heap run.space.ids
  let run' := { run with heap, space := { run.space with ids } }
  match id? with
  | some id =>
    { run' with answers := (.object o, (id : Int)) :: run.answers }.changeFinalizers
      (·.define run.isAlive o id finalizer)
  | none => run'

def step (run : SpaceRun φ) : SpaceEvent φ → SpaceRun φ
  | .allocate className payload =>
    let (o, heap) := run.heap.allocate className payload
    { run with heap, objects := o :: run.objects }
  | .share o => if run.isAlive o then { run with heap := run.heap.share o } else run
  | .die o =>
    if run.isAlive o then { run with dead := o :: run.dead, unswept := o :: run.unswept } else run
  | .objectId me v => if run.holds v then run.identify me v else run
  | .define me v finalizer =>
    match v with
    | .object o => if run.isAlive o then run.define me o finalizer else run
    | _ => run
  | .undefine v =>
    match v with
    | .object o =>
      if run.isAlive o then run.changeFinalizers fun table => (table.undefine run.isAlive o).2
      else run
    | _ => run
  | .runPending => run.changeFinalizers fun table => (table.takeDead run.isAlive).2
  | .collect =>
    { run with space := run.space.sweep run.isAlive, unswept := [] }.changeFinalizers
      fun table => (table.takeDead run.isAlive).2
  | .runAll => run.changeFinalizers fun table => table.takeAll.2

def along (run : SpaceRun φ) (events : List (SpaceEvent φ)) : SpaceRun φ :=
  events.foldl step run

def Knows (run : SpaceRun φ) : IdTarget → Prop
  | .object o => o ∈ run.objects
  | .symbol _ => True

def Swept (run : SpaceRun φ) : IdTarget → Prop
  | .object o => o ∈ run.dead ∧ o ∉ run.unswept
  | .symbol _ => False

def Holds (run : SpaceRun φ) (target : IdTarget) (id : Nat) : Prop :=
  run.Knows target ∧ run.space.ids.held? run.heap target = some id

/-- The id of a value: that of its encoding, or the one that it holds. -/
def Has (run : SpaceRun φ) (v : Value) (i : Int) : Prop :=
  ofValue? v = some i ∨ ∃ target, ∃ id : Nat, v = target.value ∧ i = id ∧ run.Holds target id

/-- Each object has a serial number and an address of its own; no id field is locked, and none is
written before its object is allocated. -/
structure Allocated (heap : Heap) (objects : List ObjectRef) : Prop where
  serial_lt : ∀ o ∈ objects, o.serial < heap.nextSerial
  address_eq : ∀ o ∈ objects, o.address = o.serial
  serial_inj : ∀ o ∈ objects, ∀ p ∈ objects, o.serial = p.serial → o = p
  unassigned : ∀ o, heap.nextSerial ≤ o.serial → heap.readId o = 0
  unlocked : ∀ o, (heap.state o).lockedBy = none

/-- The three places where ids are kept agree with each other and with the answers so far. -/
structure Sound (run : SpaceRun φ) : Prop where
  allocated : Allocated run.heap run.objects
  dead_of_unswept : ∀ o ∈ run.unswept, o ∈ run.dead
  counter_eq : ∃ k, run.space.ids.counter = counterStart + counterStride * k
  isCounterId : ∀ target id, run.Holds target id → isCounterId id
  le_counter : ∀ target id, run.Holds target id → id ≤ run.space.ids.counter
  injective : ∀ a b id, run.Holds a id → run.Holds b id → a = b
  registered : ∀ id target,
    (id, target) ∈ run.space.ids.registry ↔ run.Holds target id ∧ ¬ run.Swept target
  answered : ∀ v i, (v, i) ∈ run.answers → run.Has v i
  recorded : ∀ target id, run.Holds target id → (target.value, (id : Int)) ∈ run.answers

theorem Allocated.of_readId {heap after : Heap} {objects : List ObjectRef}
    (h : Allocated heap objects) (hserial : after.nextSerial = heap.nextSerial)
    (hread : ∀ o, after.readId o = heap.readId o)
    (hlocked : ∀ o, (after.state o).lockedBy = (heap.state o).lockedBy) :
    Allocated after objects where
  serial_lt := by
    rw [hserial]
    exact h.serial_lt
  address_eq := h.address_eq
  serial_inj := h.serial_inj
  unassigned := by
    intro o
    rw [hserial, hread]
    exact h.unassigned o
  unlocked := by
    intro o
    rw [hlocked]
    exact h.unlocked o

theorem encoded_or_target (v : Value) :
    (∃ i, ofValue? v = some i) ∨ ∃ target : IdTarget, v = target.value := by
  cases v with
  | symbol name => exact .inr ⟨.symbol name, rfl⟩
  | object o => exact .inr ⟨.object o, rfl⟩
  | _ => exact .inl ⟨_, rfl⟩

theorem idOf?_of_ofValue? {v : Value} {i : Int} (h : ofValue? v = some i) (me : Nat) (heap : Heap)
    (space : ObjectSpace φ) : space.idOf? me v heap = (some i, heap, space) := by
  cases v <;> cases h <;> rfl

namespace Sound

variable {run run' : SpaceRun φ}

theorem not_holds_start {target : IdTarget} {id : Nat} : ¬ ({} : SpaceRun φ).Holds target id := by
  rintro ⟨-, hheld⟩
  cases target <;> cases hheld

theorem start : Sound ({} : SpaceRun φ) where
  allocated := ⟨by simp, by simp, by simp, fun _ _ => rfl, fun _ => rfl⟩
  dead_of_unswept := by simp
  counter_eq := ⟨0, rfl⟩
  isCounterId := fun _ _ h => absurd h not_holds_start
  le_counter := fun _ _ h => absurd h not_holds_start
  injective := fun _ _ _ h => absurd h not_holds_start
  registered := fun _ _ => ⟨by simp, fun h => absurd h.1 not_holds_start⟩
  answered := by simp
  recorded := fun _ _ h => absurd h not_holds_start

/-- What hands out no id leaves to show only that the registry fits what has died. -/
theorem of_holds (h : Sound run) (hallocated : Allocated run'.heap run'.objects)
    (hdead : ∀ o ∈ run'.unswept, o ∈ run'.dead)
    (hcounter : run'.space.ids.counter = run.space.ids.counter)
    (hholds : ∀ target id, run'.Holds target id ↔ run.Holds target id)
    (hregistered : ∀ id target,
      (id, target) ∈ run'.space.ids.registry ↔ run.Holds target id ∧ ¬ run'.Swept target)
    (hanswers : run'.answers = run.answers) : Sound run' where
  allocated := hallocated
  dead_of_unswept := hdead
  counter_eq := hcounter ▸ h.counter_eq
  isCounterId := by simpa only [hholds] using h.isCounterId
  le_counter := by simpa only [hholds, hcounter] using h.le_counter
  injective := by simpa only [hholds] using h.injective
  registered := by simpa only [hholds] using hregistered
  answered := by simpa only [Has, hholds, hanswers] using h.answered
  recorded := by simpa only [hholds, hanswers] using h.recorded

theorem of_readId (h : Sound run) {heap : Heap} (hserial : heap.nextSerial = run.heap.nextSerial)
    (hread : ∀ o, heap.readId o = run.heap.readId o)
    (hlocked : ∀ o, (heap.state o).lockedBy = (run.heap.state o).lockedBy)
    {space : ObjectSpace φ} (hids : space.ids = run.space.ids) :
    Sound { run with heap, space } := by
  refine h.of_holds (h.allocated.of_readId hserial hread hlocked) h.dead_of_unswept
    (congrArg _ hids) ?_ ?_ rfl
  · intro target id
    show _ ∧ space.ids.held? heap target = some id ↔ _
    rw [IdTable.held?_congr hread, hids]
    exact Iff.rfl
  · show ∀ id target, (id, target) ∈ space.ids.registry ↔ _
    rw [hids]
    exact h.registered

theorem changeFinalizers (h : Sound run) (f : FinalizerTable φ → FinalizerTable φ) :
    Sound (run.changeFinalizers f) :=
  h.of_readId rfl (fun _ => rfl) (fun _ => rfl) rfl

theorem answer (h : Sound run) {v : Value} {i : Int} (hhas : run.Has v i) :
    Sound { run with answers := (v, i) :: run.answers } where
  allocated := h.allocated
  dead_of_unswept := h.dead_of_unswept
  counter_eq := h.counter_eq
  isCounterId := h.isCounterId
  le_counter := h.le_counter
  injective := h.injective
  registered := h.registered
  answered := by
    intro u j hmem
    cases List.mem_cons.mp hmem with
    | inl heq =>
        cases heq
        exact hhas
    | inr hmem => exact h.answered u j hmem
  recorded := fun target id hholds => List.mem_cons_of_mem _ (h.recorded target id hholds)

theorem eq_of_slot (h : Sound run) {a b : IdTarget} (ha : run.Knows a) (hb : run.Knows b)
    (hslot : a.slot = b.slot) : a = b := by
  cases a with
  | object o =>
      cases b with
      | object p => rw [h.allocated.serial_inj o ha p hb (Sum.inl.inj hslot)]
      | symbol name => cases hslot
  | symbol name =>
      cases b with
      | object p => cases hslot
      | symbol other => rw [Sum.inr.inj hslot]

section Draw

variable {target : IdTarget} {id : Nat} {heap : Heap} {space : ObjectSpace φ}

/-- After the next id was drawn, its target holds it and all others hold what they held. -/
theorem holds_iff_of_drawn (h : Sound run) (hknows : run.Knows target)
    (hnone : run.space.ids.held? run.heap target = none)
    (hdrawn : Drawn target id run.heap heap run.space.ids space.ids) (other : IdTarget) (n : Nat)
    (answers : List (Value × Int)) :
    SpaceRun.Holds { run with heap, space, answers } other n ↔
      run.Holds other n ∨ other = target ∧ n = id := by
  show run.Knows other ∧ space.ids.held? heap other = some n ↔ _
  rw [hdrawn.held_eq]
  by_cases heq : other = target
  · subst heq
    simp [Holds, hnone, hknows, eq_comm]
  · have hslot : run.Knows other → other.slot ≠ target.slot := by
      intro hother hslot
      exact heq (h.eq_of_slot hother hknows hslot)
    constructor
    · rintro ⟨hother, hheld⟩
      rw [if_neg (hslot hother)] at hheld
      exact .inl ⟨hother, hheld⟩
    · rintro (⟨hother, hheld⟩ | ⟨heq', -⟩)
      · rw [if_neg (hslot hother)]
        exact ⟨hother, hheld⟩
      · exact absurd heq' heq

theorem allocated_of_drawn (h : Sound run) (hknows : run.Knows target)
    (hdrawn : Drawn target id run.heap heap run.space.ids space.ids) :
    Allocated heap run.objects where
  serial_lt := by
    rw [hdrawn.nextSerial_eq]
    exact h.allocated.serial_lt
  address_eq := h.allocated.address_eq
  serial_inj := h.allocated.serial_inj
  unassigned := by
    intro o hserial
    have hheld := hdrawn.held_eq (.object o)
    rw [hdrawn.nextSerial_eq] at hserial
    have hslot : (IdTarget.object o).slot ≠ target.slot := by
      cases target with
      | symbol name => simp [IdTarget.slot]
      | object p =>
          have hlt := h.allocated.serial_lt p hknows
          simp only [IdTarget.slot, ne_eq, Sum.inl.injEq]
          omega
    rw [if_neg hslot, IdTable.held?, IdTable.held?, if_pos (h.allocated.unassigned o hserial)]
      at hheld
    apply Decidable.byContradiction
    intro hne
    rw [if_neg hne] at hheld
    cases hheld
  unlocked := by
    intro o
    rw [hdrawn.lockedBy_eq]
    exact h.allocated.unlocked o

theorem draw (h : Sound run) (hknows : run.Knows target) (hswept : ¬ run.Swept target)
    (hnone : run.space.ids.held? run.heap target = none)
    (hdrawn : Drawn target id run.heap heap run.space.ids space.ids) :
    Sound { run with heap, space, answers := (target.value, (id : Int)) :: run.answers } := by
  have hholds := fun other n => h.holds_iff_of_drawn hknows hnone hdrawn other n
    ((target.value, (id : Int)) :: run.answers)
  -- The new id is larger than any that is held, so it has no owner yet.
  have hlt : ∀ other n, run.Holds other n → n < id := by
    intro other n hother
    have hle := h.le_counter other n hother
    have hid := hdrawn.id_eq
    simp only [counterStride] at hid
    omega
  obtain ⟨k, hk⟩ := h.counter_eq
  have hstride : id = counterStart + counterStride * (k + 1) := by
    rw [hdrawn.id_eq, hk, Nat.mul_succ, Nat.add_assoc]
  refine ⟨h.allocated_of_drawn hknows hdrawn, h.dead_of_unswept, ?_, ?_, ?_, ?_, ?_, ?_, ?_⟩
  · exact ⟨k + 1, hdrawn.counter_eq.trans hstride⟩
  · intro other n hother
    obtain hother | ⟨-, rfl⟩ := (hholds other n).mp hother
    · exact h.isCounterId other n hother
    · have hbound := hdrawn.id_lt
      exact ObjectId.isCounterId_iff.mpr ⟨k + 1, by omega, by simp [hstride], by omega⟩
  · intro other n hother
    show n ≤ space.ids.counter
    rw [hdrawn.counter_eq]
    obtain hother | ⟨-, rfl⟩ := (hholds other n).mp hother
    · exact Nat.le_of_lt (hlt other n hother)
    · exact Nat.le_refl _
  · intro a b n ha hb
    obtain haold | ⟨rfl, rfl⟩ := (hholds a n).mp ha
    · obtain hbold | ⟨-, rfl⟩ := (hholds b n).mp hb
      · exact h.injective a b n haold hbold
      · exact absurd (hlt a n haold) (Nat.lt_irrefl n)
    · obtain hbold | ⟨rfl, -⟩ := (hholds b n).mp hb
      · exact absurd (hlt b n hbold) (Nat.lt_irrefl n)
      · rfl
  · intro n other
    rw [hdrawn.mem_registry, hholds, h.registered, Prod.mk.injEq]
    constructor
    · rintro (⟨rfl, rfl⟩ | ⟨⟨hother, hunswept⟩, -⟩)
      · exact ⟨.inr ⟨rfl, rfl⟩, hswept⟩
      · exact ⟨.inl hother, hunswept⟩
    · rintro ⟨hother | ⟨rfl, rfl⟩, hunswept⟩
      · exact .inr ⟨⟨hother, hunswept⟩, Nat.ne_of_lt (hlt other n hother)⟩
      · exact .inl ⟨rfl, rfl⟩
  · intro v i hmem
    obtain heq | hmem := List.mem_cons.mp hmem
    · cases heq
      exact .inr ⟨target, id, rfl, rfl, (hholds target id).mpr (.inr ⟨rfl, rfl⟩)⟩
    · obtain hencoded | ⟨other, n, hv, hi, hother⟩ := h.answered v i hmem
      · exact .inl hencoded
      · exact .inr ⟨other, n, hv, hi, (hholds other n).mpr (.inl hother)⟩
  · intro other n hother
    obtain hother | ⟨rfl, rfl⟩ := (hholds other n).mp hother
    · exact List.mem_cons_of_mem _ (h.recorded other n hother)
    · exact List.mem_cons_self

end Draw

theorem request (h : Sound run) {target : IdTarget} (hknows : run.Knows target)
    (hswept : ¬ run.Swept target) {id? : Option Nat} {heap : Heap} (space : ObjectSpace φ)
    (hrequested : Requested target run.heap run.space.ids id? heap space.ids) :
    Sound { run with
      heap, space
      answers :=
        (id?.map fun id : Nat => (target.value, Int.ofNat id)).toList ++ run.answers } := by
  generalize hids : space.ids = ids at hrequested
  cases hrequested with
  | held hheld =>
      have hsame := h.of_readId rfl (fun _ => rfl) (fun _ => rfl) hids
      apply hsame.answer
      refine .inr ⟨target, _, rfl, rfl, hknows, ?_⟩
      rw [hids]
      exact hheld
  | exhausted hnone hcounter hsame =>
      refine h.of_readId hsame.nextSerial_eq hsame.readId_eq ?_ hids
      intro o
      rw [hsame.state_eq]
  | drawn hnone hdrawn =>
      subst hids
      exact h.draw hknows hswept hnone hdrawn

theorem isAlive_iff {o : ObjectRef} : run.isAlive o ↔ o ∈ run.objects ∧ o ∉ run.dead := by
  simp [isAlive]

theorem knows_of_holds (target : IdTarget) (h : run.holds target.value) :
    run.Knows target ∧ ¬ run.Swept target := by
  cases target with
  | symbol name => exact ⟨trivial, id⟩
  | object o =>
      have halive := isAlive_iff.mp h
      exact ⟨halive.1, fun hswept => halive.2 hswept.1⟩

theorem identify (h : Sound run) (me : Nat) {v : Value} (hholds : run.holds v) :
    Sound (run.identify me v) := by
  obtain ⟨i, hi⟩ | ⟨target, rfl⟩ := encoded_or_target v
  · rw [SpaceRun.identify, idOf?_of_ofValue? hi]
    exact h.answer (.inl hi)
  · obtain ⟨hknows, hswept⟩ := knows_of_holds target hholds
    obtain ⟨id?, hanswer, hrequested⟩ := run.space.idOf?_requested me target
      fun o _ => h.allocated.unlocked o
    have hsound := h.request hknows hswept _ hrequested
    simp only [SpaceRun.identify, hanswer, Option.map_map]
    exact hsound

theorem define (h : Sound run) (me : Nat) {o : ObjectRef} (halive : run.isAlive o) (finalizer : φ) :
    Sound (run.define me o finalizer) := by
  obtain ⟨hknows, hswept⟩ := knows_of_holds (.object o) halive
  have hrequested : Requested (.object o) run.heap run.space.ids _ _ _ :=
    objectId?_requested me (h.allocated.unlocked o)
  unfold SpaceRun.define
  generalize objectId? me o run.heap run.space.ids = result at hrequested ⊢
  obtain ⟨id?, heap, ids⟩ := result
  have hsound := h.request hknows hswept { run.space with ids } hrequested
  cases id? with
  | none => exact hsound
  | some id => exact hsound.changeFinalizers _

private theorem allocated_allocate {heap : Heap} {objects : List ObjectRef}
    (h : Allocated heap objects) (className : String) (payload : Option String) :
    Allocated (heap.allocate className payload).2
      ((heap.allocate className payload).1 :: objects) := by
  have hserial : (heap.allocate className payload).1.serial = heap.nextSerial := rfl
  refine ⟨?_, ?_, ?_, ?_, h.unlocked⟩
  · intro o ho
    show o.serial < heap.nextSerial + 1
    obtain rfl | ho := List.mem_cons.mp ho
    · omega
    · have hlt := h.serial_lt o ho
      omega
  · intro o ho
    obtain rfl | ho := List.mem_cons.mp ho
    · rfl
    · exact h.address_eq o ho
  · intro o ho p hp heq
    obtain rfl | ho := List.mem_cons.mp ho
    · obtain rfl | hp := List.mem_cons.mp hp
      · rfl
      · have hlt := h.serial_lt p hp
        omega
    · have hlt := h.serial_lt o ho
      obtain rfl | hp := List.mem_cons.mp hp
      · omega
      · exact h.serial_inj o ho p hp heq
  · intro o ho
    have hle : heap.nextSerial + 1 ≤ o.serial := ho
    exact h.unassigned o (by omega)

theorem allocate (h : Sound run) (className : String) (payload : Option String) :
    Sound (run.step (.allocate className payload)) := by
  have hholds : ∀ target id, (run.step (.allocate className payload)).Holds target id ↔
      run.Holds target id := by
    intro target id
    cases target with
    | symbol name => exact Iff.rfl
    | object o =>
        constructor
        · rintro ⟨hmem, hheld⟩
          obtain rfl | hmem := List.mem_cons.mp hmem
          · have hread := h.allocated.unassigned (run.heap.allocate className payload).1
              (Nat.le_refl _)
            have hnone : run.space.ids.held? run.heap
                (.object (run.heap.allocate className payload).1) = none := if_pos hread
            cases hnone.symm.trans hheld
          · exact ⟨hmem, hheld⟩
        · rintro ⟨hmem, hheld⟩
          exact ⟨List.mem_cons_of_mem _ hmem, hheld⟩
  exact h.of_holds (allocated_allocate h.allocated className payload) h.dead_of_unswept rfl hholds
    h.registered rfl

theorem share (h : Sound run) (o : ObjectRef) : Sound { run with heap := run.heap.share o } := by
  have hserial : (run.heap.share o).nextSerial = run.heap.nextSerial := rfl
  exact h.of_readId hserial (run.heap.readId_share o) (run.heap.lockedBy_share o) rfl

theorem die (h : Sound run) {o : ObjectRef} (halive : run.isAlive o) :
    Sound { run with dead := o :: run.dead, unswept := o :: run.unswept } := by
  refine h.of_holds h.allocated ?_ rfl (fun _ _ => Iff.rfl) ?_ rfl
  · intro p hp
    obtain rfl | hp := List.mem_cons.mp hp
    · exact List.mem_cons_self
    · exact List.mem_cons_of_mem _ (h.dead_of_unswept p hp)
  · intro id target
    rw [h.registered]
    apply and_congr_right
    rintro ⟨hknows, -⟩
    cases target with
    | symbol name => exact Iff.rfl
    | object p =>
        have hdead : o ∉ run.dead := (isAlive_iff.mp halive).2
        by_cases hp : p = o
        · subst hp
          simp [Swept, hdead]
        · simp [Swept, hp]

theorem collect (h : Sound run) :
    Sound { run with space := run.space.sweep run.isAlive, unswept := [] } := by
  refine h.of_holds h.allocated (by simp) rfl (fun _ _ => Iff.rfl) ?_ rfl
  intro id target
  show _ ∈ List.filter _ run.space.ids.registry ↔ _
  rw [List.mem_filter, h.registered]
  cases target with
  | symbol name => simp [Swept]
  | object o =>
      constructor
      · rintro ⟨⟨hholds, -⟩, halive⟩
        exact ⟨hholds, fun hswept => (isAlive_iff.mp halive).2 hswept.1⟩
      · rintro ⟨hholds, hswept⟩
        have hdead : o ∉ run.dead := fun hdead => hswept ⟨hdead, by simp⟩
        refine ⟨⟨hholds, fun hold => hdead hold.1⟩, ?_⟩
        exact isAlive_iff.mpr ⟨hholds.1, hdead⟩

theorem step (h : Sound run) (event : SpaceEvent φ) : Sound (run.step event) := by
  cases event with
  | allocate className payload => exact h.allocate className payload
  | share o =>
      rw [SpaceRun.step]
      split
      · exact h.share o
      · exact h
  | die o =>
      rw [SpaceRun.step]
      split
      · next halive => exact h.die halive
      · exact h
  | objectId me v =>
      rw [SpaceRun.step]
      split
      · next hholds => exact h.identify me hholds
      · exact h
  | define me v finalizer =>
      cases v with
      | object o =>
          simp only [SpaceRun.step]
          split
          · next halive => exact h.define me halive finalizer
          · exact h
      | _ => exact h
  | undefine v =>
      cases v with
      | object o =>
          simp only [SpaceRun.step]
          split
          · exact h.changeFinalizers _
          · exact h
      | _ => exact h
  | runPending => exact h.changeFinalizers fun table => (table.takeDead run.isAlive).2
  | collect => exact h.collect.changeFinalizers fun table => (table.takeDead run.isAlive).2
  | runAll => exact h.changeFinalizers fun table => table.takeAll.2

theorem along (h : Sound run) (events : List (SpaceEvent φ)) : Sound (run.along events) := by
  induction events generalizing run with
  | nil => exact h
  | cons event rest ih => exact ih (h.step event)

theorem lookup_registry (h : Sound run) {id : Nat} {target : IdTarget} :
    run.space.ids.registry.lookup id = some target ↔ run.Holds target id ∧ ¬ run.Swept target := by
  rw [← h.registered]
  refine ⟨mem_of_lookup, fun hmem => lookup_of_mem hmem fun other hother => ?_⟩
  exact h.injective other target id ((h.registered id other).mp hother).1
    ((h.registered id target).mp hmem).1

theorem decode_of_holds (h : Sound run) {target : IdTarget} {id : Nat}
    (hholds : run.Holds target id) : decode id = some (.counter id) :=
  decode_id (d := .counter id) (h.isCounterId target id hholds)

theorem eq_of_has (h : Sound run) {u v : Value} {i : Int} (hu : run.Has u i) (hv : run.Has v i) :
    u = v := by
  obtain hu | ⟨a, id, rfl, rfl, ha⟩ := hu
  · obtain hv | ⟨b, id, rfl, rfl, hb⟩ := hv
    · exact Option.some.inj ((immediate?_of_ofValue? hu).symm.trans (immediate?_of_ofValue? hv))
    · have himmediate := immediate?_of_ofValue? hu
      rw [h.decode_of_holds hb] at himmediate
      cases himmediate
  · obtain hv | ⟨b, other, rfl, hid, hb⟩ := hv
    · have himmediate := immediate?_of_ofValue? hv
      rw [h.decode_of_holds ha] at himmediate
      cases himmediate
    · cases hid
      rw [h.injective a b id ha hb]

theorem ofValue?_target (target : IdTarget) : ofValue? target.value = none := by
  cases target <;> rfl

theorem value_inj {a b : IdTarget} (h : a.value = b.value) : a = b := by
  cases a <;> cases b <;> cases h <;> rfl

theorem id_eq_of_has {v : Value} {i j : Int} (hi : run.Has v i) (hj : run.Has v j) : i = j := by
  obtain hi | ⟨a, id, rfl, rfl, ha⟩ := hi
  · obtain hj | ⟨b, id, rfl, rfl, -⟩ := hj
    · exact Option.some.inj (hi.symm.trans hj)
    · cases (ofValue?_target b).symm.trans hi
  · obtain hj | ⟨b, other, hb, rfl, hother⟩ := hj
    · cases (ofValue?_target a).symm.trans hj
    · cases value_inj hb
      cases ha.2.symm.trans hother.2
      rfl

theorem mem_objects_of_has {o : ObjectRef} {i : Int} (h : run.Has (.object o) i) :
    o ∈ run.objects := by
  obtain hencoded | ⟨target, id, heq, -, hknows, -⟩ := h
  · cases hencoded
  · cases target with
    | object p =>
        cases heq
        exact hknows
    | symbol name => cases heq

/-- Values that have ids are identical only to themselves. -/
theorem identical_iff (h : Sound run) {u v : Value} {i j : Int} (hu : run.Has u i)
    (hv : run.Has v j) : u.identical v ↔ u = v := by
  rw [Value.identical, beq_iff_eq]
  constructor
  · intro hkey
    cases u <;> cases v
    case object.object o p =>
      have haddress : o.address = p.address := IdentityKey.object.inj hkey
      have ho := mem_objects_of_has hu
      have hp := mem_objects_of_has hv
      rw [h.allocated.address_eq o ho, h.allocated.address_eq p hp] at haddress
      rw [h.allocated.serial_inj o ho p hp haddress]
    all_goals cases hkey <;> rfl
  · rintro rfl
    rfl

/-- What holds an id is a value that can still be had, a dead object that the collector has not met
since, or an object that it has swept. -/
theorem holds_or_dead {v : Value} {i : Int} (hhas : run.Has v i) :
    run.holds v ∨ ∃ o, v = .object o ∧ (o ∈ run.unswept ∨ run.Swept (.object o)) := by
  cases v with
  | object o =>
      by_cases hdead : o ∈ run.dead
      · by_cases hunswept : o ∈ run.unswept
        · exact .inr ⟨o, rfl, .inl hunswept⟩
        · exact .inr ⟨o, rfl, .inr ⟨hdead, hunswept⟩⟩
      · exact .inl (isAlive_iff.mpr ⟨mem_objects_of_has hhas, hdead⟩)
  | _ => exact .inl rfl

section Lookup

variable {raw : Int} {v : Value} {o : ObjectRef}

private theorem toValue_of_immediate {alive : ObjectRef → Bool} {table : IdTable}
    (h : (decode raw).bind Identified.immediate? = some v) : table.toValue alive raw = .ok v := by
  obtain ⟨d, hdecode, himmediate⟩ := Option.bind_eq_some_iff.mp h
  cases d <;> cases himmediate <;> simp [IdTable.toValue, hdecode]

theorem toValue_of_holds (h : Sound run) (hhas : run.Has v raw) (hholds : run.holds v) :
    run.space.ids.toValue run.isAlive raw = .ok v := by
  obtain hencoded | ⟨target, id, rfl, rfl, htarget⟩ := hhas
  · exact toValue_of_immediate (immediate?_of_ofValue? hencoded)
  · have hlookup := h.lookup_registry.mpr ⟨htarget, (knows_of_holds target hholds).2⟩
    simp only [IdTable.toValue, h.decode_of_holds htarget, hlookup]
    cases target with
    | symbol name => rfl
    | object o => exact if_pos hholds

theorem toValue_of_unswept (h : Sound run) (hhas : run.Has (.object o) raw)
    (hunswept : o ∈ run.unswept) :
    run.space.ids.toValue run.isAlive raw = .error (Cause.recycledId (hex raw)).error := by
  obtain hencoded | ⟨target, id, heq, rfl, htarget⟩ := hhas
  · cases hencoded
  · cases target with
    | symbol name => cases heq
    | object p =>
        cases heq
        have hlookup := h.lookup_registry.mpr ⟨htarget, fun hswept => hswept.2 hunswept⟩
        have hdead : ¬ run.isAlive o := by
          intro halive
          exact (isAlive_iff.mp halive).2 (h.dead_of_unswept o hunswept)
        simp only [IdTable.toValue, h.decode_of_holds htarget, hlookup]
        exact if_neg hdead

theorem toValue_of_unknown (h : Sound run)
    (hunknown : ∀ v, run.Has v raw → ∃ o, v = .object o ∧ run.Swept (.object o)) :
    run.space.ids.toValue run.isAlive raw = .error (Cause.notAnId (hex raw)).error := by
  cases hdecode : decode raw with
  | none => simp [IdTable.toValue, hdecode]
  | some d =>
      cases hd : d.immediate? with
      | some v =>
          have hencoded : ofValue? v = some raw := by
            have hid := (id_of_decode hdecode).1
            cases d <;> cases hd <;> exact congrArg some hid
          obtain ⟨o, rfl, -⟩ := hunknown v (.inl hencoded)
          cases hencoded
      | none =>
          obtain ⟨id, rfl⟩ : ∃ id, d = .counter id := by
            cases d <;> cases hd
            exact ⟨_, rfl⟩
          have hlookup : run.space.ids.registry.lookup id = none := by
            cases hlookup : run.space.ids.registry.lookup id with
            | none => rfl
            | some target =>
                obtain ⟨htarget, hunswept⟩ := h.lookup_registry.mp hlookup
                have hraw : raw = id := (id_of_decode hdecode).1.symm
                obtain ⟨o, ho, hswept⟩ := hunknown _ (.inr ⟨target, id, rfl, hraw, htarget⟩)
                rw [value_inj (b := .object o) ho] at hunswept
                exact absurd hswept hunswept
          simp only [IdTable.toValue, hdecode, hlookup]

end Lookup

theorem idOf?_of_has (h : Sound run) {v : Value} {i : Int} (hhas : run.Has v i) (me : Nat) :
    (run.space.idOf? me v run.heap).1 = some i := by
  obtain hencoded | ⟨target, id, rfl, rfl, htarget⟩ := hhas
  · rw [idOf?_of_ofValue? hencoded]
  · obtain ⟨id?, hanswer, hrequested⟩ := run.space.idOf?_requested me target
      fun o _ => h.allocated.unlocked o
    rw [hanswer, (hrequested.of_held htarget.2).1]
    rfl

theorem exists_idOf? (h : Sound run) (v : Value) (me : Nat)
    (hcounter : run.space.ids.counter + counterStride < wordBound) :
    ∃ i, (run.space.idOf? me v run.heap).1 = some i := by
  obtain ⟨i, hi⟩ | ⟨target, rfl⟩ := encoded_or_target v
  · exact ⟨i, by rw [idOf?_of_ofValue? hi]⟩
  · obtain ⟨id?, hanswer, hrequested⟩ := run.space.idOf?_requested me target
      fun o _ => h.allocated.unlocked o
    obtain ⟨id, rfl⟩ := hrequested.exists_answer hcounter
    exact ⟨id, hanswer⟩

theorem has_iff (h : Sound run) {v : Value} {i : Int} :
    run.Has v i ↔ ofValue? v = some i ∨ (v, i) ∈ run.answers := by
  constructor
  · rintro (hencoded | ⟨target, id, rfl, rfl, htarget⟩)
    · exact .inl hencoded
    · exact .inr (h.recorded target id htarget)
  · rintro (hencoded | hmem)
    · exact .inl hencoded
    · exact h.answered v i hmem

end Sound

def Finds (run : SpaceRun φ) (raw : Int) (v : Value) : Prop :=
  ofValue? v = some raw ∨ (v, raw) ∈ run.answers ∧ run.holds v

def Recycled (run : SpaceRun φ) (raw : Int) : Prop :=
  ∃ o ∈ run.unswept, (.object o, raw) ∈ run.answers

namespace Sound

variable {run : SpaceRun φ} {raw : Int}

theorem finds_iff (h : Sound run) {v : Value} :
    run.Finds raw v ↔ run.Has v raw ∧ run.holds v := by
  rw [h.has_iff]
  constructor
  · rintro (hencoded | ⟨hmem, hholds⟩)
    · refine ⟨.inl hencoded, ?_⟩
      cases v with
      | object o => cases hencoded
      | _ => rfl
    · exact ⟨.inr hmem, hholds⟩
  · rintro ⟨hencoded | hmem, hholds⟩
    · exact .inl hencoded
    · exact .inr ⟨hmem, hholds⟩

theorem toValue_cases (h : Sound run) (raw : Int) :
    (∃ v, run.Finds raw v ∧ run.space.ids.toValue run.isAlive raw = .ok v) ∨
      run.Recycled raw ∧
        run.space.ids.toValue run.isAlive raw = .error (Cause.recycledId (hex raw)).error ∨
      (∀ v, ¬ run.Finds raw v) ∧ ¬ run.Recycled raw ∧
        run.space.ids.toValue run.isAlive raw = .error (Cause.notAnId (hex raw)).error := by
  by_cases hfinds : ∃ v, run.Finds raw v
  · obtain ⟨v, hv⟩ := hfinds
    obtain ⟨hhas, hholds⟩ := h.finds_iff.mp hv
    exact .inl ⟨v, hv, h.toValue_of_holds hhas hholds⟩
  by_cases hrecycled : run.Recycled raw
  · obtain ⟨o, hunswept, hmem⟩ := hrecycled
    exact .inr (.inl ⟨⟨o, hunswept, hmem⟩,
      h.toValue_of_unswept (h.answered _ _ hmem) hunswept⟩)
  · have hnone : ∀ v, ¬ run.Finds raw v := fun v hv => hfinds ⟨v, hv⟩
    refine .inr (.inr ⟨hnone, hrecycled, h.toValue_of_unknown ?_⟩)
    intro v hhas
    obtain hholds | ⟨o, rfl, hunswept | hswept⟩ := holds_or_dead hhas
    · exact absurd (h.finds_iff.mpr ⟨hhas, hholds⟩) (hnone v)
    · obtain hencoded | hmem := h.has_iff.mp hhas
      · cases hencoded
      · exact absurd ⟨o, hunswept, hmem⟩ hrecycled
    · exact ⟨o, rfl, hswept⟩

private theorem recycledId_ne_notAnId (text : String) :
    (Cause.recycledId text).error ≠ (Cause.notAnId text).error := by
  intro heq
  have hmessage : text ++ " is recycled object" = text ++ " is not id value" := by
    injection heq
  have hrest := String.append_right_inj text |>.mp hmessage
  exact absurd hrest (by decide)

theorem toValue_eq_ok_iff (h : Sound run) {v : Value} :
    run.space.ids.toValue run.isAlive raw = .ok v ↔ run.Finds raw v := by
  constructor
  · intro hok
    obtain ⟨u, hfinds, heq⟩ | ⟨-, heq⟩ | ⟨-, -, heq⟩ := h.toValue_cases raw
    · cases heq.symm.trans hok
      exact hfinds
    · cases heq.symm.trans hok
    · cases heq.symm.trans hok
  · intro hfinds
    obtain ⟨hhas, hholds⟩ := h.finds_iff.mp hfinds
    exact h.toValue_of_holds hhas hholds

theorem toValue_eq_recycled_iff (h : Sound run) :
    run.space.ids.toValue run.isAlive raw = .error (Cause.recycledId (hex raw)).error ↔
      run.Recycled raw := by
  constructor
  · intro herror
    obtain ⟨u, -, heq⟩ | ⟨hrecycled, -⟩ | ⟨-, -, heq⟩ := h.toValue_cases raw
    · cases heq.symm.trans herror
    · exact hrecycled
    · exact absurd (Except.error.inj (herror.symm.trans heq)) (recycledId_ne_notAnId _)
  · rintro ⟨o, hunswept, hmem⟩
    exact h.toValue_of_unswept (h.answered _ _ hmem) hunswept

theorem toValue_eq_notAnId_iff (h : Sound run) :
    run.space.ids.toValue run.isAlive raw = .error (Cause.notAnId (hex raw)).error ↔
      (∀ v, ¬ run.Finds raw v) ∧ ¬ run.Recycled raw := by
  obtain ⟨u, hfinds, heq⟩ | ⟨hrecycled, heq⟩ | ⟨hnone, hunrecycled, heq⟩ := h.toValue_cases raw
  · rw [heq]
    exact ⟨fun herror => (by cases herror), fun hnone => absurd hfinds (hnone.1 u)⟩
  · rw [heq]
    exact ⟨fun herror => absurd (Except.error.inj herror) (recycledId_ne_notAnId _),
      fun hnone => absurd hrecycled hnone.2⟩
  · exact ⟨fun _ => ⟨hnone, hunrecycled⟩, fun _ => heq⟩

end Sound

/-- Ids are identities, whatever has happened to a new space. Of all answers ever given two are the
same id exactly if they were given to identical values, dead or alive. A value that was answered
once is answered the same again, and every value is answered until the counter is used up. Looking
an id up gives the immediate with this encoding, or the symbol or live object that was answered with
it; the id of an object that died after the last collection is called recycled, and any other id is
refused as none. -/
theorem ids_are_identities (events : List (SpaceEvent φ)) :
    let run := ({} : SpaceRun φ).along events
    (∀ u i v j, (u, i) ∈ run.answers → (v, j) ∈ run.answers → (i = j ↔ u.identical v)) ∧
      (∀ v i me, (v, i) ∈ run.answers → (run.space.idOf? me v run.heap).1 = some i) ∧
      (∀ v me, run.space.ids.counter + counterStride < wordBound →
        ∃ i, (run.space.idOf? me v run.heap).1 = some i) ∧
      ∀ raw,
        (∀ v, run.space.ids.toValue run.isAlive raw = .ok v ↔ run.Finds raw v) ∧
        (run.space.ids.toValue run.isAlive raw =
          .error (.core .range (hex raw ++ " is recycled object")) ↔ run.Recycled raw) ∧
        (run.space.ids.toValue run.isAlive raw =
          .error (.core .range (hex raw ++ " is not id value")) ↔
            (∀ v, ¬ run.Finds raw v) ∧ ¬ run.Recycled raw) := by
  intro run
  have h : Sound run := Sound.start.along events
  refine ⟨?_, ?_, ?_, ?_⟩
  · intro u i v j hu hv
    have hhas := h.answered u i hu
    have hhas' := h.answered v j hv
    rw [h.identical_iff hhas hhas']
    constructor
    · rintro rfl
      exact h.eq_of_has hhas hhas'
    · rintro rfl
      exact Sound.id_eq_of_has hhas hhas'
  · intro v i me hmem
    exact h.idOf?_of_has (h.answered v i hmem) me
  · exact h.exists_idOf?
  · intro raw
    exact ⟨fun _ => h.toValue_eq_ok_iff, h.toValue_eq_recycled_iff, h.toValue_eq_notAnId_iff⟩

/-- The first of two objects with ids dies. -/
def bereavement : List (SpaceEvent Unit) :=
  [.allocate "Object" none, .allocate "Object" none, .share ⟨1, 1, "Object", none⟩,
    .objectId 0 (.object ⟨0, 0, "Object", none⟩), .define 1 (.object ⟨1, 1, "Object", none⟩) (),
    .objectId 0 (.symbol "name"), .die ⟨0, 0, "Object", none⟩]

theorem ids_are_identities_bereavement :
    let run := ({} : SpaceRun Unit).along bereavement
    run.space.ids.toValue run.isAlive 24 =
        .error (.core .range (hex 24 ++ " is recycled object")) ∧
      run.space.ids.toValue run.isAlive 40 = .ok (.object ⟨1, 1, "Object", none⟩) := by
  obtain ⟨-, -, -, hlookup⟩ := ids_are_identities bereavement
  constructor
  · refine (hlookup 24).2.1.mpr ⟨⟨0, 0, "Object", none⟩, ?_, ?_⟩
    · decide +kernel
    · decide +kernel
  · refine ((hlookup 40).1 _).mpr (.inr ⟨?_, ?_⟩)
    · decide +kernel
    · decide +kernel

end SpaceRun

end RubyRuntime
