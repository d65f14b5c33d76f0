import Mathlib.Data.List.Nodup
import RubyRuntime.Proofs.ObjectSpace.Contention
import RubyRuntime.Proofs.ObjectSpace.Identity

/-!
# Races for ids

Any number of calls ask one object space for ids at once, each by single accesses that may be
interleaved with those of all others. Main result: calls for an object that is shared agree on one
id, which is drawn once, listed in the registry and had by nobody else. Objects that are not shared
promise nothing of the kind, but their calls cannot disturb those of a shared one.
-/
namespace RubyRuntime

open ObjectId

variable {φ : Type}

structure IdCall (φ : Type) where
  me : Nat
  object : ObjectRef
  request : IdRequest := .reading
  finalizer : Option φ := none

/-- An object space with all calls that have been made and the ids that were drawn, newest first. -/
structure Race (φ : Type) where
  heap : Heap
  space : ObjectSpace φ
  objects : List ObjectRef
  dead : List ObjectRef
  calls : List (IdCall φ) := []
  draws : List (IdTarget × Nat) := []

inductive RaceMove (φ : Type) where
  | allocate (className : String) (payload : Option String)
  | share (o : ObjectRef)
  | symbolId (name : String)
  | call (me : Nat) (o : ObjectRef) (finalizer : Option φ)
  | go (i : Nat)

namespace Race

/-- The calls begin after a run in which nothing happened at the same time. -/
def after (run : SpaceRun φ) : Race φ where
  heap := run.heap
  space := run.space
  objects := run.objects
  dead := run.dead

def isAlive (race : Race φ) (o : ObjectRef) : Bool :=
  o ∈ race.objects && o ∉ race.dead

/-- Whoever moves the counter has drawn the id that it comes to. -/
def noteDraw (target : IdTarget) (ids : IdTable) (race : Race φ) : Race φ :=
  { race with
    space := { race.space with ids }
    draws := if ids.counter = race.space.ids.counter then race.draws
      else (target, ids.counter) :: race.draws }

def access (i : Nat) (call : IdCall φ) (race : Race φ) : Race φ :=
  let (request, heap, ids) := call.request.step call.me call.object race.heap race.space.ids
  { race with heap, calls := race.calls.set i { call with request } }.noteDraw
    (.object call.object) ids

def advance (i : Nat) (call : IdCall φ) (race : Race φ) : Race φ :=
  match call.request, call.finalizer with
  | .finished (some id), some finalizer =>
    let finalizers := race.space.finalizers.define race.isAlive call.object id finalizer
    { race with
      space := { race.space with finalizers }
      calls := race.calls.set i { call with finalizer := none } }
  | _, _ => race.access i call

def step (race : Race φ) : RaceMove φ → Race φ
  | .allocate className payload =>
    let (o, heap) := race.heap.allocate className payload
    { race with heap, objects := o :: race.objects }
  | .share o => if race.isAlive o then { race with heap := race.heap.share o } else race
  | .symbolId name =>
    match race.space.ids.symbolId? name with
    | some (_, ids) => race.noteDraw (.symbol name) ids
    | none => race
  | .call me o finalizer =>
    if race.isAlive o then { race with calls := race.calls ++ [{ me, object := o, finalizer }] }
    else race
  | .go i =>
    match race.calls[i]? with
    | some call => race.advance i call
    | none => race

def along (race : Race φ) (moves : List (RaceMove φ)) : Race φ :=
  moves.foldl step race

def requestsFor (o : ObjectRef) (calls : List (IdCall φ)) : List IdRequest :=
  (calls.filter (·.object = o)).map (·.request)

def drawnFor (o : ObjectRef) (race : Race φ) : List Nat :=
  (race.draws.filter (·.1 = .object o)).map (·.2)

/-- The id was given to the target before the calls began or since. -/
def Given (base : SpaceRun φ) (race : Race φ) (target : IdTarget) (id : Nat) : Prop :=
  base.Holds target id ∨ (target, id) ∈ race.draws

end Race

/-- What one access of a request for `o` does. -/
structure IdRequest.Effect (o : ObjectRef) (request request' : IdRequest) (heap heap' : Heap)
    (ids ids' : IdTable) : Prop where
  nextSerial_eq : heap'.nextSerial = heap.nextSerial
  state_eq : ∀ p : ObjectRef, p.serial ≠ o.serial → heap'.state p = heap.state p
  symbols_eq : ids'.symbols = ids.symbols
  counter_eq : ids'.counter = ids.counter ∨ ids'.counter = ids.counter + counterStride
  field : heap'.readId o = heap.readId o ∨ request.id? = some (heap'.readId o)
  source : ∀ id, request'.id? = some id → request.id? = some id ∨
    heap.readId o = id ∧ id ≠ 0 ∨ ids'.counter = id ∧ ids'.counter ≠ ids.counter
  entered : ∀ entry ∈ ids'.registry, entry ∈ ids.registry ∨
    ∃ id, request.id? = some id ∧ entry = (id, .object o)
  kept : ∀ entry ∈ ids.registry, entry ∈ ids'.registry ∨ request.id? = some entry.1

namespace IdRequest

variable {o : ObjectRef} {request request' : IdRequest} {heap heap' : Heap} {ids ids' : IdTable}

theorem Effect.still (hid : ∀ id, request'.id? = some id → request.id? = some id ∨
      heap.readId o = id ∧ id ≠ 0) : Effect o request request' heap heap ids ids where
  nextSerial_eq := rfl
  state_eq := fun _ _ => rfl
  symbols_eq := rfl
  counter_eq := .inl rfl
  field := .inl rfl
  source := fun id h => (hid id h).imp_right .inl
  entered := fun _ h => .inl h
  kept := fun _ h => .inl h

theorem Effect.locked (holder : Option Nat) (hid : request'.id? = request.id?) :
    Effect o request request' heap (heap.setIdLock o holder) ids ids where
  nextSerial_eq := rfl
  state_eq := fun p hp => by rw [Heap.setIdLock, Heap.state_setState, if_neg hp]
  symbols_eq := rfl
  counter_eq := .inl rfl
  field := .inl (by rw [Heap.setIdLock, Heap.readId_setState, if_pos rfl]; rfl)
  source := fun id h => .inl (hid ▸ h)
  entered := fun _ h => .inl h
  kept := fun _ h => .inl h

theorem step_effect {me : Nat} (h : request.step me o heap ids = (request', heap', ids')) :
    Effect o request request' heap heap' ids ids' := by
  cases request with
  | reading =>
      simp only [step] at h
      split at h
      · next hid =>
        cases h
        exact .still fun id heq => .inr (Option.some.inj heq ▸ ⟨rfl, hid⟩)
      · split at h <;> cases h <;> exact .still (by simp [id?])
  | locking =>
      simp only [step] at h
      split at h <;> cases h
      · exact .still fun id heq => .inl heq
      · exact .locked _ rfl
  | rereading =>
      simp only [step] at h
      split at h <;> cases h
      · next hid => exact .still fun id heq => .inr (Option.some.inj heq ▸ ⟨rfl, hid⟩)
      · exact .still (by simp [id?])
  | drawing locked =>
      simp only [step, IdTable.next?_eq] at h
      by_cases hlt : ids.counter + counterStride < wordBound
      · rw [if_pos hlt] at h
        cases h
        exact
          { nextSerial_eq := rfl
            state_eq := fun _ _ => rfl
            symbols_eq := rfl
            counter_eq := .inr rfl
            field := .inl rfl
            source := fun id heq => .inr (.inr ⟨Option.some.inj heq, by simp [counterStride]⟩)
            entered := fun _ hmem => .inl hmem
            kept := fun _ hmem => .inl hmem }
      · rw [if_neg hlt] at h
        cases h
        cases locked <;> exact .still (by simp [id?])
  | writing locked id =>
      cases h
      exact
        { nextSerial_eq := rfl
          state_eq := fun p hp => by rw [Heap.writeId, Heap.state_setState, if_neg hp]
          symbols_eq := rfl
          counter_eq := .inl rfl
          field := .inr (by rw [Heap.writeId, Heap.readId_setState, if_pos rfl]; rfl)
          source := fun other heq => .inl heq
          entered := fun _ hmem => .inl hmem
          kept := fun _ hmem => .inl hmem }
  | registering locked id =>
      cases h
      exact
        { nextSerial_eq := rfl
          state_eq := fun _ _ => rfl
          symbols_eq := rfl
          counter_eq := .inl rfl
          field := .inl rfl
          source := fun other heq => .inl (by cases locked <;> exact heq)
          entered := fun entry hmem => by
            rcases IdTable.mem_registry_register.mp hmem with heq | ⟨hold, -⟩
            · exact .inr ⟨id, rfl, heq⟩
            · exact .inl hold
          kept := fun entry hmem => by
            by_cases heq : entry.1 = id
            · exact .inr (heq ▸ rfl)
            · exact .inl (IdTable.mem_registry_register.mpr (.inr ⟨hmem, heq⟩)) }
  | unlocking id? =>
      cases h
      exact .locked none rfl
  | finished id? =>
      cases h
      exact .still fun id heq => .inl heq

end IdRequest

namespace Race

/-- Wherever an id is found, in a field, in a call, in the registry or with a symbol, it was given
to that object or symbol. The ids drawn since the calls began are the next ones of the counter. -/
structure Honest (base : SpaceRun φ) (race : Race φ) : Prop where
  serial_lt : ∀ o ∈ race.objects, o.serial < race.heap.nextSerial
  serial_inj : ∀ o ∈ race.objects, ∀ p ∈ race.objects, o.serial = p.serial → o = p
  unassigned : ∀ o, race.heap.nextSerial ≤ o.serial → race.heap.readId o = 0
  callers : ∀ call ∈ race.calls, call.object ∈ race.objects
  counter_eq :
    race.space.ids.counter = base.space.ids.counter + counterStride * race.draws.length
  above : ∀ draw ∈ race.draws, base.space.ids.counter < draw.2 ∧ draw.2 ≤ race.space.ids.counter
  nodup : (race.draws.map Prod.snd).Nodup
  field : ∀ o ∈ race.objects, race.heap.readId o ≠ 0 →
    race.Given base (.object o) (race.heap.readId o)
  carried : ∀ call ∈ race.calls, ∀ id, call.request.id? = some id →
    race.Given base (.object call.object) id
  registered : ∀ entry ∈ race.space.ids.registry, race.Given base entry.2 entry.1
  symbols : ∀ name id, race.space.ids.symbols.lookup name = some id →
    race.Given base (.symbol name) id

theorem symbolId?_cases {ids ids' : IdTable} {name : String} {id : Nat}
    (h : ids.symbolId? name = some (id, ids')) :
    ids' = ids ∨ ids'.counter < wordBound ∧ ids'.counter = ids.counter + counterStride ∧
      (∀ entry, entry ∈ ids'.registry ↔
        entry = (ids'.counter, .symbol name) ∨ entry ∈ ids.registry ∧ entry.1 ≠ ids'.counter) ∧
      ids'.symbols = (name, ids'.counter) :: ids.symbols := by
  simp only [IdTable.symbolId?, IdTable.next?_eq] at h
  split at h
  · cases h
    exact .inl rfl
  · split at h
    · next hlt =>
      cases h
      exact .inr ⟨hlt, rfl, fun _ => IdTable.mem_registry_register, rfl⟩
    · cases h

namespace Honest

variable {base : SpaceRun φ} {race : Race φ}

theorem given_inj (hbase : base.Sound) (h : Honest base race) {a b : IdTarget} {id : Nat}
    (ha : race.Given base a id) (hb : race.Given base b id) : a = b := by
  rcases ha with ha | ha <;> rcases hb with hb | hb
  · exact hbase.injective a b id ha hb
  · have hle := hbase.le_counter a id ha
    have hlt := (h.above _ hb).1
    exact absurd hlt (Nat.not_lt.mpr hle)
  · have hle := hbase.le_counter b id hb
    have hlt := (h.above _ ha).1
    exact absurd hlt (Nat.not_lt.mpr hle)
  · exact congrArg Prod.fst (List.inj_on_of_nodup_map h.nodup ha hb rfl)

theorem le_counter (hbase : base.Sound) (h : Honest base race) {target : IdTarget} {id : Nat}
    (hgiven : race.Given base target id) : id ≤ race.space.ids.counter := by
  rcases hgiven with hheld | hdrawn
  · have hle := hbase.le_counter target id hheld
    have hcounter := h.counter_eq
    omega
  · exact (h.above _ hdrawn).2

theorem start (hbase : base.Sound) : Honest base (after base) where
  serial_lt := hbase.allocated.serial_lt
  serial_inj := hbase.allocated.serial_inj
  unassigned := hbase.allocated.unassigned
  callers := by simp [after]
  counter_eq := rfl
  above := by simp [after]
  nodup := List.nodup_nil
  field := fun o ho hid => .inl ⟨ho, if_neg hid⟩
  carried := by simp [after]
  registered := fun entry hmem => .inl ((hbase.registered entry.1 entry.2).mp hmem).1
  symbols := fun name id hlookup => .inl ⟨trivial, hlookup⟩

theorem noteDraw_counter (h : Honest base race) (target : IdTarget) {ids : IdTable}
    (hcounter : ids.counter = race.space.ids.counter ∨
      ids.counter = race.space.ids.counter + counterStride) :
    ids.counter = base.space.ids.counter +
        counterStride * (race.noteDraw target ids).draws.length ∧
      (∀ draw ∈ (race.noteDraw target ids).draws,
        base.space.ids.counter < draw.2 ∧ draw.2 ≤ ids.counter) ∧
      ((race.noteDraw target ids).draws.map Prod.snd).Nodup := by
  have hcounter_eq := h.counter_eq
  by_cases hsame : ids.counter = race.space.ids.counter
  · simp only [noteDraw, hsame]
    exact ⟨hcounter_eq, h.above, h.nodup⟩
  · have hmoved := hcounter.resolve_left hsame
    have hstride : 0 < counterStride := by simp [counterStride]
    simp only [noteDraw, if_neg hsame, List.length_cons, List.map_cons, List.nodup_cons,
      List.forall_mem_cons]
    refine ⟨by rw [hmoved, hcounter_eq, Nat.mul_succ, Nat.add_assoc], ⟨by omega, ?_⟩, ?_, h.nodup⟩
    · intro draw hdraw
      have habove := h.above draw hdraw
      omega
    · intro hmem
      obtain ⟨draw, hdraw, heq⟩ := List.mem_map.mp hmem
      have habove := h.above draw hdraw
      omega

theorem given_noteDraw {target other : IdTarget} {ids : IdTable} {id : Nat}
    (h : race.Given base other id) : (race.noteDraw target ids).Given base other id := by
  refine h.imp_right fun hmem => ?_
  simp only [noteDraw]
  split
  · exact hmem
  · exact List.mem_cons_of_mem _ hmem

theorem given_of_drawn {target : IdTarget} {ids : IdTable}
    (h : ids.counter ≠ race.space.ids.counter) :
    (race.noteDraw target ids).Given base target ids.counter := by
  right
  simp only [noteDraw, if_neg h, List.mem_cons_self]

theorem access (h : Honest base race) {call : IdCall φ} (hmem : call ∈ race.calls)
    {request : IdRequest} {heap : Heap} {ids : IdTable}
    (heffect : call.request.Effect call.object request race.heap heap race.space.ids ids)
    {calls : List (IdCall φ)} (hcalls : ∀ c ∈ calls, c ∈ race.calls ∨ c = { call with request }) :
    Honest base ({ race with heap, calls }.noteDraw (.object call.object) ids) := by
  obtain ⟨hcounter, habove, hnodup⟩ :=
    h.noteDraw_counter (.object call.object) heffect.counter_eq
  have hobject := h.callers call hmem
  refine ⟨?_, h.serial_inj, ?_, ?_, hcounter, habove, hnodup, ?_, ?_, ?_, ?_⟩
  · show ∀ o ∈ race.objects, o.serial < heap.nextSerial
    rw [heffect.nextSerial_eq]
    exact h.serial_lt
  · intro o ho
    have hle : race.heap.nextSerial ≤ o.serial := heffect.nextSerial_eq ▸ ho
    have hlt := h.serial_lt call.object hobject
    have hstate := heffect.state_eq o (by omega)
    show (heap.state o).id = 0
    rw [hstate]
    exact h.unassigned o hle
  · intro c hc
    rcases hcalls c hc with hold | rfl
    · exact h.callers c hold
    · exact hobject
  · intro o ho hid
    apply given_noteDraw
    by_cases hserial : o.serial = call.object.serial
    · obtain rfl := h.serial_inj o ho call.object hobject hserial
      rcases heffect.field with hsame | hwritten
      · have heq : heap.readId call.object = race.heap.readId call.object := hsame
        show race.Given base _ (heap.readId call.object)
        rw [heq]
        exact h.field _ ho (heq ▸ hid)
      · exact h.carried call hmem _ hwritten
    · have heq : heap.readId o = race.heap.readId o :=
        congrArg ObjectState.id (heffect.state_eq o hserial)
      show race.Given base _ (heap.readId o)
      rw [heq]
      exact h.field o ho (heq ▸ hid)
  · intro c hc id hid
    rcases hcalls c hc with hold | rfl
    · exact given_noteDraw (h.carried c hold id hid)
    · rcases heffect.source id hid with hcarried | ⟨rfl, hne⟩ | ⟨rfl, hmoved⟩
      · exact given_noteDraw (h.carried call hmem id hcarried)
      · exact given_noteDraw (h.field _ hobject hne)
      · exact given_of_drawn hmoved
  · intro entry hentry
    apply given_noteDraw
    rcases heffect.entered entry hentry with hold | ⟨id, hid, rfl⟩
    · exact h.registered entry hold
    · exact h.carried call hmem id hid
  · intro name id hlookup
    have hold : race.space.ids.symbols.lookup name = some id := heffect.symbols_eq ▸ hlookup
    exact given_noteDraw (h.symbols name id hold)

theorem symbolId (h : Honest base race) {name : String} {id : Nat} {ids : IdTable}
    (hids : race.space.ids.symbolId? name = some (id, ids)) :
    Honest base (race.noteDraw (.symbol name) ids) := by
  rcases symbolId?_cases hids with rfl | ⟨-, hcounter, hregistry, hsymbols⟩
  · have hsame : race.noteDraw (.symbol name) race.space.ids = race := by simp [noteDraw]
    rwa [hsame]
  · have hmoved : ids.counter ≠ race.space.ids.counter := by simp [hcounter, counterStride]
    obtain ⟨hcounter_eq, habove, hnodup⟩ := h.noteDraw_counter (.symbol name) (.inr hcounter)
    refine ⟨h.serial_lt, h.serial_inj, h.unassigned, h.callers, hcounter_eq, habove, hnodup, ?_, ?_,
      ?_, ?_⟩
    · exact fun o ho hid => given_noteDraw (h.field o ho hid)
    · exact fun call hcall other hid => given_noteDraw (h.carried call hcall other hid)
    · intro entry hentry
      rcases (hregistry entry).mp hentry with rfl | ⟨hold, -⟩
      · exact given_of_drawn hmoved
      · exact given_noteDraw (h.registered entry hold)
    · intro other otherId hlookup
      have hlookup : ids.symbols.lookup other = some otherId := hlookup
      rw [hsymbols, List.lookup_cons] at hlookup
      split at hlookup
      · next heq =>
        cases hlookup
        rw [eq_of_beq heq]
        exact given_of_drawn hmoved
      · exact given_noteDraw (h.symbols other otherId hlookup)

theorem share (h : Honest base race) (o : ObjectRef) :
    Honest base { race with heap := race.heap.share o } := by
  have hread := race.heap.readId_share o
  exact
    { h with
      unassigned := fun p hp => (hread p).trans (h.unassigned p hp)
      field := fun p hp hid => by
        show race.Given base _ ((race.heap.share o).readId p)
        rw [hread]
        exact h.field p hp (hread p ▸ hid) }

theorem allocate (h : Honest base race) (className : String) (payload : Option String) :
    Honest base (race.step (.allocate className payload)) where
  serial_lt := by
    intro o ho
    rcases List.mem_cons.mp ho with rfl | hold
    · exact Nat.lt_succ_self _
    · exact Nat.lt_succ_of_lt (h.serial_lt o hold)
  serial_inj := by
    intro o ho p hp heq
    rcases List.mem_cons.mp ho with rfl | holdo <;> rcases List.mem_cons.mp hp with rfl | holdp
    · rfl
    · exact absurd heq.symm (Nat.ne_of_lt (h.serial_lt p holdp))
    · exact absurd heq (Nat.ne_of_lt (h.serial_lt o holdo))
    · exact h.serial_inj o holdo p holdp heq
  unassigned := fun o ho => h.unassigned o (Nat.le_of_succ_le ho)
  callers := fun call hcall => List.mem_cons_of_mem _ (h.callers call hcall)
  counter_eq := h.counter_eq
  above := h.above
  nodup := h.nodup
  field := by
    intro o ho hid
    rcases List.mem_cons.mp ho with rfl | hold
    · exact absurd (h.unassigned _ (Nat.le_refl _)) hid
    · exact h.field o hold hid
  carried := h.carried
  registered := h.registered
  symbols := h.symbols

end Honest

structure Contended (base : SpaceRun φ) (o : ObjectRef) (race : Race φ) : Prop where
  honest : Honest base race
  member : o ∈ race.objects
  guarded : Guarded (base.heap.readId o) (race.heap.state o) (requestsFor o race.calls)
    (race.drawnFor o) (fun id => (id, .object o) ∈ race.space.ids.registry) race.space.ids.counter

theorem requestsFor_append {o : ObjectRef} (first second : List (IdCall φ)) :
    requestsFor o (first ++ second) = requestsFor o first ++ requestsFor o second := by
  simp [requestsFor]

theorem requestsFor_cons {o : ObjectRef} (call : IdCall φ) (calls : List (IdCall φ)) :
    requestsFor o (call :: calls) =
      if call.object = o then call.request :: requestsFor o calls else requestsFor o calls := by
  simp only [requestsFor, List.filter_cons, decide_eq_true_eq]
  split <;> rfl

theorem exists_of_getElem? {calls : List (IdCall φ)} {i : Nat} {call : IdCall φ}
    (h : calls[i]? = some call) :
    ∃ before after, calls = before ++ call :: after ∧
      ∀ c, calls.set i c = before ++ c :: after := by
  obtain ⟨hi, rfl⟩ := List.getElem?_eq_some_iff.mp h
  refine ⟨calls.take i, calls.drop (i + 1), ?_, fun c => ?_⟩
  · rw [List.getElem_cons_drop, List.take_append_drop]
  · rw [List.set_eq_take_append_cons_drop, if_pos hi]

section Draws

variable {race : Race φ} {o : ObjectRef} {target : IdTarget} {ids : IdTable}

theorem drawnFor_noteDraw_self (o : ObjectRef) :
    (race.noteDraw (.object o) ids).drawnFor o =
      Guarded.drawnBy race.space.ids ids (race.drawnFor o) := by
  simp only [drawnFor, noteDraw, Guarded.drawnBy]
  split
  · rfl
  · simp

theorem drawnFor_noteDraw_ne (h : target ≠ .object o) :
    (race.noteDraw target ids).drawnFor o = race.drawnFor o := by
  simp only [drawnFor, noteDraw]
  split
  · rfl
  · simp [h]

end Draws

namespace Contended

variable {base : SpaceRun φ} {race : Race φ} {o : ObjectRef}

theorem start (hbase : base.Sound) (halive : base.isAlive o) (hshared : base.heap.isShared o) :
    Contended base o (after base) where
  honest := .start hbase
  member := (SpaceRun.Sound.isAlive_iff.mp halive).1
  guarded := by
    obtain ⟨hmember, hundead⟩ := SpaceRun.Sound.isAlive_iff.mp halive
    refine .start hshared (hbase.allocated.unlocked o) fun id => ?_
    show (id, IdTarget.object o) ∈ base.space.ids.registry ↔ base.heap.readId o = id ∧ id ≠ 0
    rw [hbase.registered]
    simp only [SpaceRun.Holds, SpaceRun.Knows, SpaceRun.Swept, IdTable.held?, hmember, hundead,
      true_and, false_and, not_false_eq_true, and_true]
    split
    · next hzero => simp [hzero, eq_comm]
    · next hne =>
      constructor
      · rintro heq
        cases heq
        exact ⟨rfl, hne⟩
      · rintro ⟨rfl, -⟩
        rfl

theorem share (h : Contended base o race) (p : ObjectRef) :
    Contended base o { race with heap := race.heap.share p } where
  honest := h.honest.share p
  member := h.member
  guarded := by
    show Guarded _ ((race.heap.share p).state o) _ _ _ _
    rw [Heap.share, Heap.state_setState]
    split
    · next heq =>
      rw [← race.heap.state_eq_of_serial heq]
      exact h.guarded.frame rfl rfl rfl (fun _ => Iff.rfl) (Nat.le_refl _)
    · exact h.guarded

theorem symbolId (hbase : base.Sound) (h : Contended base o race) {name : String} {id : Nat}
    {ids : IdTable} (hids : race.space.ids.symbolId? name = some (id, ids)) :
    Contended base o (race.noteDraw (.symbol name) ids) where
  honest := h.honest.symbolId hids
  member := h.member
  guarded := by
    rw [drawnFor_noteDraw_ne (by simp)]
    rcases symbolId?_cases hids with rfl | ⟨-, hcounter, hregistry, -⟩
    · exact h.guarded
    · refine h.guarded.frame h.guarded.shared rfl rfl (fun other => ?_) ?_
      · show (other, _) ∈ ids.registry ↔ (other, _) ∈ race.space.ids.registry
        rw [hregistry]
        refine ⟨fun hmem => ?_, fun hold => .inr ⟨hold, ?_⟩⟩
        · rcases hmem with heq | ⟨hold, -⟩
          · cases heq
          · exact hold
        · have hle := h.honest.le_counter hbase (h.honest.registered _ hold)
          simp only [hcounter, counterStride] at hle ⊢
          omega
      · show _ ≤ ids.counter
        omega

theorem call (h : Contended base o race) {c : IdCall φ} (hobject : c.object ∈ race.objects)
    (hreading : c.request = .reading) :
    Contended base o { race with calls := race.calls ++ [c] } where
  honest :=
    { h.honest with
      callers := fun other hother => by
        rcases List.mem_append.mp hother with hold | hnew
        · exact h.honest.callers other hold
        · exact List.mem_singleton.mp hnew ▸ hobject
      carried := fun other hother id hid => by
        rcases List.mem_append.mp hother with hold | hnew
        · exact h.honest.carried other hold id hid
        · rw [List.mem_singleton.mp hnew, hreading] at hid
          cases hid }
  member := h.member
  guarded := by
    show Guarded _ _ (requestsFor o (race.calls ++ [c])) _ _ _
    rw [requestsFor_append]
    by_cases heq : c.object = o
    · rw [requestsFor_cons, if_pos heq, hreading]
      exact h.guarded.arrive
    · have hnone : requestsFor o [c] = [] := by rw [requestsFor_cons, if_neg heq]; rfl
      rw [hnone, List.append_nil]
      exact h.guarded

theorem aside (hbase : base.Sound) (h : Contended base o race) {c : IdCall φ}
    (hmem : c ∈ race.calls) (hne : c.object ≠ o) {request : IdRequest} {heap : Heap} {ids : IdTable}
    (heffect : c.request.Effect c.object request race.heap heap race.space.ids ids) :
    Guarded (base.heap.readId o) (heap.state o) (requestsFor o race.calls) (race.drawnFor o)
      (fun id => (id, .object o) ∈ ids.registry) ids.counter := by
  have hserial : o.serial ≠ c.object.serial := by
    intro heq
    exact hne (h.honest.serial_inj o h.member c.object (h.honest.callers c hmem) heq).symm
  rw [heffect.state_eq o hserial]
  refine h.guarded.frame h.guarded.shared rfl rfl
    (fun id => ⟨fun hentry => ?_, fun hentry => ?_⟩) ?_
  · rcases heffect.entered _ hentry with hold | ⟨other, -, heq⟩
    · exact hold
    · cases heq
      exact absurd rfl hne
  · -- The registry forgets an entry only if its id is entered again, and this id is not theirs.
    rcases heffect.kept _ hentry with hkept | hid
    · exact hkept
    · have htheirs := h.honest.carried c hmem id hid
      have hours := h.honest.registered _ hentry
      cases h.honest.given_inj hbase htheirs hours
      exact absurd rfl hne
  · rcases heffect.counter_eq with heq | heq <;> omega

theorem access (hbase : base.Sound) (h : Contended base o race) {i : Nat} {c : IdCall φ}
    (hcall : race.calls[i]? = some c) : Contended base o (race.access i c) := by
  obtain ⟨before, after, hsplit, hset⟩ := exists_of_getElem? hcall
  have hmem : c ∈ race.calls := List.mem_of_getElem? hcall
  obtain ⟨request, heap, ids, hstep⟩ : ∃ request heap ids,
      c.request.step c.me c.object race.heap race.space.ids = (request, heap, ids) :=
    ⟨_, _, _, rfl⟩
  have heffect := IdRequest.step_effect hstep
  have hcalls : ∀ other ∈ race.calls.set i { c with request },
      other ∈ race.calls ∨ other = { c with request } := by
    intro other hother
    exact List.mem_or_eq_of_mem_set hother
  simp only [Race.access, hstep]
  refine ⟨h.honest.access hmem heffect hcalls, h.member, ?_⟩
  show Guarded _ (heap.state o) (requestsFor o (race.calls.set i { c with request }))
    ((race.noteDraw (.object c.object) ids).drawnFor o) (fun id => (id, .object o) ∈ ids.registry)
    ids.counter
  by_cases heq : c.object = o
  · subst heq
    have hguarded := h.guarded
    rw [hsplit, requestsFor_append, requestsFor_cons, if_pos rfl] at hguarded
    rw [hset, requestsFor_append, requestsFor_cons, if_pos rfl, drawnFor_noteDraw_self]
    exact hguarded.step hstep
  · have hsame : requestsFor o (race.calls.set i { c with request }) =
        requestsFor o race.calls := by
      rw [hset, hsplit, requestsFor_append, requestsFor_append, requestsFor_cons,
        requestsFor_cons, if_neg heq, if_neg heq]
    rw [hsame, drawnFor_noteDraw_ne (by simpa using heq)]
    exact h.aside hbase hmem heq heffect

theorem advance (hbase : base.Sound) (h : Contended base o race) {i : Nat} {c : IdCall φ}
    (hcall : race.calls[i]? = some c) : Contended base o (race.advance i c) := by
  unfold Race.advance
  split
  · next id finalizer hrequest hfinalizer =>
    obtain ⟨before, after, hsplit, hset⟩ := exists_of_getElem? hcall
    have hmem : c ∈ race.calls := List.mem_of_getElem? hcall
    have hcalls : ∀ other ∈ race.calls.set i { c with finalizer := none },
        ∃ old ∈ race.calls, other.object = old.object ∧ other.request = old.request := by
      intro other hother
      rcases List.mem_or_eq_of_mem_set hother with hold | rfl
      · exact ⟨other, hold, rfl, rfl⟩
      · exact ⟨c, hmem, rfl, rfl⟩
    refine ⟨{ h.honest with callers := ?_, carried := ?_ }, h.member, ?_⟩
    · intro other hother
      obtain ⟨old, hold, hobject, -⟩ := hcalls other hother
      exact hobject ▸ h.honest.callers old hold
    · intro other hother id hid
      obtain ⟨old, hold, hobject, hrequest⟩ := hcalls other hother
      exact hobject ▸ h.honest.carried old hold id (hrequest ▸ hid)
    · have hsame : requestsFor o (race.calls.set i { c with finalizer := none }) =
          requestsFor o race.calls := by
        rw [hset, hsplit, requestsFor_append, requestsFor_append, requestsFor_cons,
          requestsFor_cons]
      show Guarded _ _ (requestsFor o (race.calls.set i { c with finalizer := none })) _ _ _
      rw [hsame]
      exact h.guarded
  · exact h.access hbase hcall

theorem step (hbase : base.Sound) (h : Contended base o race) (move : RaceMove φ) :
    Contended base o (race.step move) := by
  cases move with
  | allocate className payload =>
      exact ⟨h.honest.allocate className payload, List.mem_cons_of_mem _ h.member, h.guarded⟩
  | share p =>
      simp only [Race.step]
      split
      · exact h.share p
      · exact h
  | symbolId name =>
      simp only [Race.step]
      split
      · next hids => exact h.symbolId hbase hids
      · exact h
  | call me p finalizer =>
      simp only [Race.step]
      split
      · next halive =>
        have hmember : p ∈ race.objects ∧ p ∉ race.dead := by simpa [isAlive] using halive
        exact h.call hmember.1 rfl
      · exact h
  | go i =>
      simp only [Race.step]
      split
      · next hcall => exact h.advance hbase hcall
      · exact h

theorem along (hbase : base.Sound) (h : Contended base o race) (moves : List (RaceMove φ)) :
    Contended base o (race.along moves) := by
  induction moves generalizing race with
  | nil => exact h
  | cons move rest ih => exact ih (h.step hbase move)

theorem mem_requestsFor {c : IdCall φ} (hmem : c ∈ race.calls) (hobject : c.object = o) :
    c.request ∈ requestsFor o race.calls :=
  List.mem_map.mpr ⟨c, List.mem_filter.mpr ⟨hmem, by simpa using hobject⟩, rfl⟩

def rankFor (o : ObjectRef) (race : Race φ) : Nat :=
  (requestsFor o race.calls).foldr (fun request n => request.rank + n) 0

theorem foldr_rank_lt {before after : List IdRequest} {r r' : IdRequest} (hlt : r'.rank < r.rank) :
    (before ++ r' :: after).foldr (fun request n => request.rank + n) 0 <
      (before ++ r :: after).foldr (fun request n => request.rank + n) 0 := by
  induction before with
  | nil => exact Nat.add_lt_add_right hlt _
  | cons _ _ ih => exact Nat.add_lt_add_left ih _

theorem exists_go (h : Contended base o race)
    (hopen : ∃ call ∈ race.calls, call.object = o ∧ ¬ call.request.isFinished) :
    ∃ i, rankFor o (race.step (.go i)) < rankFor o race := by
  obtain ⟨waiting, hwaiting, hobject, hunfinished⟩ := hopen
  obtain ⟨request, hrequest, hprogress⟩ := h.guarded.exists_progress
    ⟨waiting.request, mem_requestsFor hwaiting hobject, hunfinished⟩ race.space.ids
  obtain ⟨c, hc, rfl⟩ := List.mem_map.mp hrequest
  obtain ⟨hmem, hobject⟩ := List.mem_filter.mp hc
  have hobject : c.object = o := by simpa using hobject
  obtain ⟨i, hi⟩ := List.mem_iff_getElem?.mp hmem
  obtain ⟨before, after, hsplit, hset⟩ := exists_of_getElem? hi
  have hlt := hprogress c.me
  have hgo : race.step (.go i) = race.access i c := by
    simp only [Race.step, hi, Race.advance]
    split
    · next hfinished hfinalizer =>
      rw [hfinished] at hlt
      cases hlt
    · rfl
  refine ⟨i, ?_⟩
  have hcalls : (race.access i c).calls = before ++
      { c with request := (c.request.step c.me o race.heap race.space.ids).1 } :: after := by
    rw [← hset, ← hobject]
    rfl
  rw [hgo, rankFor, rankFor, hcalls, hsplit, requestsFor_append, requestsFor_append,
    requestsFor_cons, requestsFor_cons, if_pos hobject, if_pos hobject]
  exact foldr_rank_lt hlt

/-- The calls for the object can always go on until all of them are over. -/
theorem exists_turns (hbase : base.Sound) (h : Contended base o race) :
    ∃ turns : List Nat, ∀ call ∈ (race.along (turns.map .go)).calls, call.object = o →
      call.request.isFinished := by
  generalize hrank : rankFor o race = n
  induction n using Nat.strongRecOn generalizing race with
  | ind n ih =>
      by_cases hopen : ∃ call ∈ race.calls, call.object = o ∧ ¬ call.request.isFinished
      · obtain ⟨i, hlt⟩ := h.exists_go hopen
        obtain ⟨turns, hturns⟩ := ih _ (hrank ▸ hlt) (h.step hbase (.go i)) rfl
        exact ⟨i :: turns, hturns⟩
      · refine ⟨[], fun call hcall hobject => ?_⟩
        apply Decidable.byContradiction
        intro hunfinished
        exact hopen ⟨call, hcall, hobject, hunfinished⟩

theorem answer_eq (h : Contended base o race) {c : IdCall φ} (hmem : c ∈ race.calls)
    (hobject : c.object = o) {id? : Option Nat} (hfinished : c.request = .finished id?) :
    id? = some (race.heap.readId o) ∧ race.heap.readId o ≠ 0 ∨
      id? = none ∧ wordBound ≤ race.space.ids.counter + counterStride := by
  have hfits := h.guarded.fits c.request (mem_requestsFor hmem hobject)
  rw [hfinished] at hfits
  cases id? with
  | some id =>
      have heq : race.heap.readId o = id := hfits.1
      exact .inl ⟨congrArg some heq.symm, heq ▸ hfits.2⟩
  | none => exact .inr ⟨rfl, hfits⟩

theorem drawnFor_eq (h : Contended base o race) (hid : race.heap.readId o ≠ 0) :
    race.drawnFor o = if base.heap.readId o = 0 then [race.heap.readId o] else [] := by
  split
  · next hnone =>
    have hmem : race.heap.readId o ∈ race.drawnFor o := by
      refine (h.guarded.source hid).resolve_left fun heq => hid ?_
      exact heq.trans hnone
    have hlength := h.guarded.drawn_once
    match race.drawnFor o, hlength, hmem with
    | [_], _, hmem => rw [List.mem_singleton.mp hmem]
  · next hsome => exact (h.guarded.former_eq hsome).2

/-- Once no call is between writing the field and entering it, the registry lists the id. -/
theorem lookup_registry (hbase : base.Sound) (h : Contended base o race)
    (hover : ∀ call ∈ race.calls, call.object = o → call.request.isFinished)
    (hid : race.heap.readId o ≠ 0) :
    race.space.ids.registry.lookup (race.heap.readId o) = some (.object o) := by
  have hmem : (race.heap.readId o, .object o) ∈ race.space.ids.registry := by
    refine (h.guarded.listed hid).resolve_right fun hopen => ?_
    obtain ⟨c, hc, heq⟩ := List.mem_map.mp hopen
    obtain ⟨hcall, hobject⟩ := List.mem_filter.mp hc
    have hfinished := hover c hcall (by simpa using hobject)
    rw [heq] at hfinished
    cases hfinished
  refine lookup_of_mem hmem fun target hlisted => ?_
  exact h.honest.given_inj hbase (h.honest.registered _ hlisted) (h.honest.registered _ hmem)

end Contended

/-- Calls that ask for the id of one shared object agree, however their accesses are interleaved
with each other and with requests for the ids of other objects and of symbols. Each that is over has
the id in the field, unless the counter is used up; the counter has moved once for the object, or
not at all if it had an id before; the registry lists the object under no other id, and under this
one as soon as the calls are over; no other object, symbol or call has it. The calls can always be
brought to an end. -/
theorem one_id_per_shared_object (events : List (SpaceEvent φ)) (o : ObjectRef)
    (moves : List (RaceMove φ)) :
    let base := ({} : SpaceRun φ).along events
    let race := (after base).along moves
    let id := race.heap.readId o
    base.isAlive o → base.heap.isShared o →
      (∀ call ∈ race.calls, call.object = o → ∀ id?, call.request = .finished id? →
        id? = some id ∧ id ≠ 0 ∨
          id? = none ∧ wordBound ≤ race.space.ids.counter + counterStride) ∧
      race.space.ids.counter = base.space.ids.counter + counterStride * race.draws.length ∧
      (race.drawnFor o).length ≤ 1 ∧
      (id ≠ 0 → race.drawnFor o = if base.heap.readId o = 0 then [id] else []) ∧
      (∀ other, (other, .object o) ∈ race.space.ids.registry → other = id) ∧
      ((∀ call ∈ race.calls, call.object = o → call.request.isFinished) → id ≠ 0 →
        race.space.ids.registry.lookup id = some (.object o)) ∧
      (id ≠ 0 → (∀ p ∈ race.objects, p ≠ o → race.heap.readId p ≠ id) ∧
        (∀ name, race.space.ids.symbols.lookup name ≠ some id) ∧
        ∀ call ∈ race.calls, call.object ≠ o → call.request.id? ≠ some id) ∧
      ∃ turns : List Nat, ∀ call ∈ (race.along (turns.map .go)).calls, call.object = o →
        call.request.isFinished := by
  intro base race id halive hshared
  have hbase : base.Sound := SpaceRun.Sound.start.along events
  have h : Contended base o race := (Contended.start hbase halive hshared).along hbase moves
  refine ⟨fun call hcall hobject id? => h.answer_eq hcall hobject, h.honest.counter_eq,
    h.guarded.drawn_once, h.drawnFor_eq,
    fun other hother => (h.guarded.entered_eq other hother).1.symm, h.lookup_registry hbase,
    fun hid => ?_, h.exists_turns hbase⟩
  have hours : race.Given base (.object o) id := h.honest.field o h.member hid
  refine ⟨fun p hp hne heq => ?_, fun name hlookup => ?_, fun call hcall hne hcarried => ?_⟩
  · have htheirs := h.honest.field p hp (heq ▸ hid)
    rw [heq] at htheirs
    cases h.honest.given_inj hbase htheirs hours
    exact hne rfl
  · cases h.honest.given_inj hbase (h.honest.symbols name id hlookup) hours
  · cases h.honest.given_inj hbase (h.honest.carried call hcall id hcarried) hours
    exact hne rfl

private def prize : ObjectRef := ⟨0, 0, "Object", none⟩

/-- Two calls find the field empty. The first gets the lock, and while it has drawn an id but not
written it, a symbol is given the next one; the second then finds what the first has written. -/
def photoFinish : List (RaceMove Unit) :=
  [.call 1 prize none, .call 2 prize (some ()), .go 0, .go 1, .go 1, .go 0, .go 1, .go 1,
    .symbolId "name", .go 0, .go 1, .go 1, .go 1, .go 0, .go 0, .go 0]

theorem one_id_per_shared_object_photoFinish :
    let base := ({} : SpaceRun Unit).along [.allocate "Object" none, .share prize]
    let race := (after base).along photoFinish
    (∀ call ∈ race.calls, call.request = .finished (some 24)) ∧ race.drawnFor prize = [24] ∧
      race.space.ids.registry.lookup 24 = some (.object prize) := by
  obtain ⟨-, -, -, hdrawn, -, hregistry, -⟩ := one_id_per_shared_object
    [.allocate "Object" none, .share prize] prize photoFinish (by decide +kernel)
    (by decide +kernel)
  refine ⟨by decide +kernel, hdrawn (by decide +kernel), hregistry ?_ (by decide +kernel)⟩
  decide +kernel

end Race

end RubyRuntime
