import Mathlib.Data.List.Nodup
import RubyRuntime.Proofs.ObjectSpace.Requests
import RubyRuntime.Session.ObjectOps

/-!
# The end of the id space

The counter of a space may start anywhere in a 64-bit word. Over every run of requests the ids that
it hands out go up by one stride each and stay inside the word. A request that would leave the word
is fatal and changes nothing: from then on nobody gets a new id, and whoever has one keeps it.
-/
namespace RubyRuntime

open ObjectId

variable {φ : Type}

inductive IdEvent where
  | share (o : ObjectRef)
  | identify (me : Nat) (o : ObjectRef) (ids : IdTable)
  | draw
  | request (me : Nat) (target : IdTarget)

/-- A space with the answers that it has given to requests, none for a fatal one, and the ids that
its counter has handed out, both oldest first. -/
structure IdRun (φ : Type) where
  heap : Heap := {}
  space : ObjectSpace φ := {}
  answers : List (IdTarget × Option Int) := []
  drawn : List Int := []

namespace IdRun

def start (counter : UInt64) : IdRun φ :=
  { space := { ids := { counter := counter.toNat } } }

def held? (run : IdRun φ) (target : IdTarget) : Option Nat :=
  run.space.ids.held? run.heap target

def ask (run : IdRun φ) (me : Nat) (target : IdTarget) : Option Int × Heap × ObjectSpace φ :=
  run.space.idOf? me target.value run.heap

def step (run : IdRun φ) : IdEvent → IdRun φ
  | .share o => { run with heap := run.heap.share o }
  | .identify me o ids => { run with heap := (objectId? me o run.heap ids).2.1 }
  | .draw =>
    match run.space.ids.next? with
    | some (id, ids) =>
      { run with space := { run.space with ids }, drawn := run.drawn ++ [Int.ofNat id] }
    | none => run
  | .request me target =>
    let asked := run.ask me target
    { heap := asked.2.1
      space := asked.2.2
      answers := run.answers ++ [(target, asked.1)]
      drawn := run.drawn ++ if (run.held? target).isNone then asked.1.toList else [] }

def along (run : IdRun φ) (events : List IdEvent) : IdRun φ :=
  events.foldl step run

def Exhausted (run : IdRun φ) : Prop :=
  wordBound ≤ run.space.ids.counter + counterStride

/-- The counter has gone up by one stride for each id from where it started, and whatever was
answered is still held. -/
structure Sound (counter : Nat) (run : IdRun φ) : Prop where
  unlocked : ∀ o, (run.heap.state o).lockedBy = none
  drawn_eq : run.drawn =
    (List.range run.drawn.length).map fun k => Int.ofNat (counter + counterStride * (k + 1))
  counter_eq : run.space.ids.counter = counter + counterStride * run.drawn.length
  counter_lt : run.space.ids.counter < wordBound
  answered : ∀ target id, (target, some id) ∈ run.answers →
    ∃ n : Nat, id = n ∧ run.held? target = some n

theorem ask_space (run : IdRun φ) (me : Nat) (target : IdTarget) :
    (run.ask me target).2.2 = { run.space with ids := (run.ask me target).2.2.ids } := by
  cases target with
  | object o => rfl
  | symbol name =>
      simp only [ask, IdTarget.value, ObjectSpace.idOf?]
      split <;> rfl

namespace Sound

variable {counter : Nat} {run : IdRun φ} {target : IdTarget} {id : Nat} {heap : Heap}
  {space : ObjectSpace φ}

theorem start (counter : UInt64) : Sound counter.toNat (IdRun.start counter : IdRun φ) where
  unlocked := fun _ => rfl
  drawn_eq := rfl
  counter_eq := rfl
  counter_lt := counter.toNat_lt
  answered := fun _ _ hmem => by cases hmem

theorem keep (h : Sound counter run) (hunlocked : ∀ o, (heap.state o).lockedBy = none)
    (hcounter : space.ids.counter = run.space.ids.counter)
    (hheld : ∀ target id, run.held? target = some id → space.ids.held? heap target = some id) :
    Sound counter { run with heap, space } where
  unlocked := hunlocked
  drawn_eq := h.drawn_eq
  counter_eq := hcounter.trans h.counter_eq
  counter_lt := by
    show space.ids.counter < wordBound
    rw [hcounter]
    exact h.counter_lt
  answered := fun target id hmem => by
    obtain ⟨n, hid, hn⟩ := h.answered target id hmem
    exact ⟨n, hid, hheld target n hn⟩

theorem advance (h : Sound counter run) (hunlocked : ∀ o, (heap.state o).lockedBy = none)
    (hid : id = run.space.ids.counter + counterStride) (hlt : id < wordBound)
    (hcounter : space.ids.counter = id)
    (hheld : ∀ target id, run.held? target = some id → space.ids.held? heap target = some id) :
    Sound counter { run with heap, space, drawn := run.drawn ++ [Int.ofNat id] } := by
  have hnext : id = counter + counterStride * (run.drawn.length + 1) := by
    rw [hid, h.counter_eq, Nat.mul_succ, Nat.add_assoc]
  refine ⟨hunlocked, ?_, ?_, ?_, ?_⟩
  · show run.drawn ++ [Int.ofNat id] = _
    rw [List.length_append, List.length_singleton, List.range_succ, List.map_append,
      List.map_singleton, ← h.drawn_eq, ← hnext]
  · show space.ids.counter = _
    rw [List.length_append, List.length_singleton, hcounter, hnext]
  · show space.ids.counter < wordBound
    rw [hcounter]
    exact hlt
  · intro target i hmem
    obtain ⟨n, hi, hn⟩ := h.answered target i hmem
    exact ⟨n, hi, hheld target n hn⟩

theorem answer (h : Sound counter run) {id? : Option Nat}
    (hid : ∀ id, id? = some id → run.held? target = some id) :
    Sound counter { run with answers := run.answers ++ [(target, id?.map Int.ofNat)] } := by
  refine ⟨h.unlocked, h.drawn_eq, h.counter_eq, h.counter_lt, ?_⟩
  intro other i hmem
  rcases List.mem_append.mp hmem with hmem | hmem
  · exact h.answered other i hmem
  · obtain ⟨rfl, hi⟩ := Prod.mk.inj (List.mem_singleton.mp hmem)
    obtain ⟨n, hn, rfl⟩ := Option.map_eq_some_iff.mp hi.symm
    exact ⟨n, rfl, hid n hn⟩

theorem requested (h : Sound counter run) (me : Nat) (target : IdTarget) :
    ∃ id?, (run.ask me target).1 = id?.map Int.ofNat ∧
      Requested target run.heap run.space.ids id? (run.ask me target).2.1
        (run.ask me target).2.2.ids :=
  run.space.idOf?_requested me target fun o _ => h.unlocked o

theorem request (h : Sound counter run) (me : Nat) (target : IdTarget) :
    Sound counter (run.step (.request me target)) := by
  obtain ⟨id?, hanswer, hrequested⟩ := h.requested me target
  have hunlocked : ∀ o, ((run.ask me target).2.1.state o).lockedBy = none :=
    fun o => (hrequested.lockedBy_eq o).trans (h.unlocked o)
  have hkept := fun (other : IdTarget) (id : Nat) (hheld : run.held? other = some id) =>
    hrequested.held?_of_held hheld
  simp only [step, hanswer]
  cases hheld : run.held? target with
  | some id =>
      obtain ⟨-, -, hids⟩ := hrequested.of_held hheld
      have hsound := h.keep hunlocked (congrArg _ hids) hkept
      simpa using hsound.answer fun id => hrequested.held?_answer
  | none =>
      by_cases hroom : run.space.ids.counter + counterStride < wordBound
      · obtain ⟨id, rfl, hdrawn⟩ := hrequested.of_room hheld hroom
        have hsound := h.advance hunlocked hdrawn.id_eq hdrawn.id_lt hdrawn.counter_eq hkept
        exact hsound.answer fun id => hrequested.held?_answer
      · obtain ⟨rfl, -, hids⟩ := hrequested.of_exhausted (Nat.le_of_not_lt hroom)
        have hnone : run.space.ids.held? run.heap target = none := hheld
        have hsound := h.keep hunlocked (congrArg _ hids) hkept
        simpa [hnone] using hsound.answer fun id => hrequested.held?_answer

theorem draw (h : Sound counter run) : Sound counter (run.step .draw) := by
  rw [step, IdTable.next?_eq]
  by_cases hroom : run.space.ids.counter + counterStride < wordBound
  · rw [if_pos hroom]
    exact h.advance h.unlocked rfl hroom rfl fun target id hheld => by
      cases target <;> exact hheld
  · rw [if_neg hroom]
    exact h

theorem identify (h : Sound counter run) (me : Nat) (o : ObjectRef) (ids : IdTable) :
    Sound counter (run.step (.identify me o ids)) := by
  have hrequested : Requested (.object o) run.heap ids (objectId? me o run.heap ids).1
      (objectId? me o run.heap ids).2.1 (objectId? me o run.heap ids).2.2 :=
    objectId?_requested me (h.unlocked o)
  refine h.keep (fun p => (hrequested.lockedBy_eq p).trans (h.unlocked p)) rfl ?_
  intro target id hheld
  cases target with
  | symbol name => exact hheld
  | object p =>
      have hread : ids.held? run.heap (.object p) = some id := hheld
      exact hrequested.held?_of_held hread

theorem share (h : Sound counter run) (o : ObjectRef) : Sound counter (run.step (.share o)) := by
  refine h.keep (fun p => (run.heap.lockedBy_share o p).trans (h.unlocked p)) rfl ?_
  intro target id hheld
  rw [IdTable.held?_congr (run.heap.readId_share o)]
  exact hheld

theorem step (h : Sound counter run) (event : IdEvent) : Sound counter (run.step event) := by
  cases event with
  | share o => exact h.share o
  | identify me o ids => exact h.identify me o ids
  | draw => exact h.draw
  | request me target => exact h.request me target

theorem along (h : Sound counter run) (events : List IdEvent) :
    Sound counter (run.along events) := by
  induction events generalizing run with
  | nil => exact h
  | cons event rest ih => exact ih (h.step event)

theorem ask_of_held (h : Sound counter run) (me : Nat) (hheld : run.held? target = some id) :
    run.ask me target = (some (id : Int), run.heap, run.space) := by
  obtain ⟨id?, hanswer, hrequested⟩ := h.requested me target
  obtain ⟨rfl, hheap, hids⟩ := hrequested.of_held hheld
  have hspace := run.ask_space me target
  rw [hids] at hspace
  exact Prod.ext hanswer (Prod.ext hheap hspace)

theorem ask_of_exhausted (h : Sound counter run) (me : Nat) (target : IdTarget)
    (hexhausted : run.Exhausted) :
    (run.ask me target).1 = (run.held? target).map Int.ofNat ∧
      (run.ask me target).2.1.Same run.heap ∧ (run.ask me target).2.2 = run.space := by
  obtain ⟨id?, hanswer, hrequested⟩ := h.requested me target
  obtain ⟨rfl, hsame, hids⟩ := hrequested.of_exhausted hexhausted
  refine ⟨hanswer, hsame, ?_⟩
  rw [run.ask_space me target, hids]

theorem step_of_exhausted (h : Sound counter run) (hexhausted : run.Exhausted) (event : IdEvent) :
    (run.step event).space = run.space ∧ (run.step event).drawn = run.drawn := by
  cases event with
  | share o => exact ⟨rfl, rfl⟩
  | identify me o ids => exact ⟨rfl, rfl⟩
  | draw =>
      rw [IdRun.step, IdTable.next?_eq, if_neg (Nat.not_lt.mpr hexhausted)]
      exact ⟨rfl, rfl⟩
  | request me target =>
      obtain ⟨hanswer, -, hspace⟩ := h.ask_of_exhausted me target hexhausted
      refine ⟨hspace, ?_⟩
      simp only [IdRun.step, hanswer]
      cases run.held? target <;> simp

theorem along_of_exhausted (h : Sound counter run) (hexhausted : run.Exhausted)
    (events : List IdEvent) :
    (run.along events).space = run.space ∧ (run.along events).drawn = run.drawn := by
  induction events generalizing run with
  | nil => exact ⟨rfl, rfl⟩
  | cons event rest ih =>
      obtain ⟨hspace, hdrawn⟩ := h.step_of_exhausted hexhausted event
      have hstill : (run.step event).Exhausted := by
        rw [Exhausted, hspace]
        exact hexhausted
      obtain ⟨hspaces, hdrawns⟩ := ih (h.step event) hstill
      exact ⟨hspaces.trans hspace, hdrawns.trans hdrawn⟩

theorem step_of_room (h : Sound counter run) (me : Nat) (hnone : run.held? target = none)
    (hroom : ¬ run.Exhausted) :
    let id := run.space.ids.counter + counterStride
    let after := run.step (.request me target)
    after.answers = run.answers ++ [(target, some (id : Int))] ∧
      after.drawn = run.drawn ++ [(id : Int)] ∧ after.held? target = some id ∧
      after.space.ids.counter = id ∧ (id, target) ∈ after.space.ids.registry := by
  intro id after
  obtain ⟨id?, hanswer, hrequested⟩ := h.requested me target
  obtain ⟨n, rfl, hdrawn⟩ := hrequested.of_room hnone (Nat.lt_of_not_le hroom)
  obtain rfl : n = id := hdrawn.id_eq
  have hasked : (run.ask me target).1 = some (id : Int) := hanswer
  refine ⟨?_, ?_, hrequested.held?_answer rfl, hdrawn.counter_eq, ?_⟩
  · simp only [after, IdRun.step, hasked]
  · simp [after, IdRun.step, hasked, hnone]
  · exact (hdrawn.mem_registry _).mpr (.inl rfl)

theorem mem_drawn (h : Sound counter run) {i : Int} (hi : i ∈ run.drawn) :
    0 < i ∧ i < wordBound := by
  rw [h.drawn_eq] at hi
  obtain ⟨k, hk, rfl⟩ := List.mem_map.mp hi
  have hbound := h.counter_lt
  rw [h.counter_eq] at hbound
  have hlt : k < run.drawn.length := List.mem_range.mp hk
  simp only [counterStride, Int.ofNat_eq_natCast] at hbound ⊢
  omega

theorem nodup_drawn (h : Sound counter run) : run.drawn.Nodup := by
  rw [h.drawn_eq]
  refine List.nodup_range.map ?_
  intro k l heq
  simp only [counterStride, Int.ofNat_eq_natCast] at heq
  omega

end Sound

open Session

/-- In a session a request that is refused panics, and the panic leaves all spaces and all objects
as they were. -/
theorem Sound.replyId_of_exhausted {counter : Nat} {run : IdRun Finalizer} {target : IdTarget}
    (h : Sound counter run) (hexhausted : run.Exhausted) (hnone : run.held? target = none)
    (scope : Scope) {w : World} {i : Nat} (hheap : w.heap = run.heap)
    (hspace : w.space i = run.space) :
    let reply := w.replyId scope i target.value
    reply.result = .error (.panic "garnet fatal error: object id space exhausted") ∧
      reply.world.spaces = w.spaces ∧ reply.world.heap.Same w.heap := by
  intro reply
  obtain ⟨hanswer, hsame, hkept⟩ := h.ask_of_exhausted scope.me target hexhausted
  rw [hnone] at hanswer
  have hasked : (w.space i).idOf? scope.me target.value w.heap =
      (none, (run.ask scope.me target).2.1, run.space) := by
    rw [hspace, hheap]
    exact Prod.ext hanswer (Prod.ext rfl hkept)
  have hreply : reply = ({ w with heap := (run.ask scope.me target).2.1 }.setSpace i
      run.space).panics idsExhausted := by
    simp only [reply, World.replyId, hasked]
  rw [hreply]
  refine ⟨rfl, ?_, hheap ▸ hsame⟩
  show w.spaces.set i run.space = w.spaces
  rw [← hspace]
  rcases Nat.lt_or_ge i w.spaces.length with hlt | hge
  · rw [World.space, List.getElem?_eq_getElem hlt]
    exact List.set_getElem_self hlt
  · exact List.set_eq_of_length_le hge

/-- Ids never wrap, wherever in the word the counter starts and whatever is asked. The ids that it
has handed out go up by one stride each from there, stay inside the word, are all different and
never 0. Whoever was answered with an id is answered with it again, and nothing changes. While there
is room, whoever has no id gets the next one, which is at once the counter's, the asker's and
registered. Otherwise the request is fatal: it leaves the counter, the symbols, the registry and all
objects as they were, no later event changes them or draws an id, and all later requests of those
who have no id are fatal too. -/
theorem ids_never_wrap (counter : UInt64) (events : List IdEvent) :
    let run := (start counter : IdRun Finalizer).along events
    (run.drawn = (List.range run.drawn.length).map fun k =>
        Int.ofNat (counter.toNat + counterStride * (k + 1))) ∧
      (∀ id ∈ run.drawn, 0 < id ∧ id < wordBound) ∧ run.drawn.Nodup ∧
      (∀ target id me, (target, some id) ∈ run.answers →
        run.ask me target = (some id, run.heap, run.space)) ∧
      ∀ target me, run.held? target = none →
        let next := counter.toNat + counterStride * (run.drawn.length + 1)
        let after := run.step (.request me target)
        (next < wordBound →
          after.answers = run.answers ++ [(target, some (next : Int))] ∧
            after.drawn = run.drawn ++ [(next : Int)] ∧ after.held? target = some next ∧
            after.space.ids.counter = next ∧ (next, target) ∈ after.space.ids.registry) ∧
        (wordBound ≤ next →
          after.answers = run.answers ++ [(target, none)] ∧
            after.space = run.space ∧ after.heap.Same run.heap ∧
            (∀ scope (w : World) i, w.heap = run.heap → w.space i = run.space →
              let reply := w.replyId scope i target.value
              reply.result = .error (.panic "garnet fatal error: object id space exhausted") ∧
                reply.world.spaces = w.spaces ∧ reply.world.heap.Same w.heap) ∧
            ∀ later, (after.along later).space = run.space ∧
              (after.along later).drawn = run.drawn ∧
              ∀ target me, (after.along later).held? target = none →
                ((after.along later).ask me target).1 = none) := by
  intro run
  have h : Sound counter.toNat run := (Sound.start counter).along events
  refine ⟨h.drawn_eq, fun id => h.mem_drawn, h.nodup_drawn, ?_, ?_⟩
  · intro target id me hmem
    obtain ⟨n, rfl, hheld⟩ := h.answered target id hmem
    exact h.ask_of_held me hheld
  · intro target me hnone next after
    have hnext : run.space.ids.counter + counterStride = next := by
      rw [h.counter_eq, Nat.add_assoc, ← Nat.mul_succ]
    refine ⟨fun hroom => ?_, fun hend => ?_⟩
    · have hopen : ¬ run.Exhausted := by
        rw [Exhausted, hnext]
        exact Nat.not_le.mpr hroom
      have hstep := h.step_of_room me hnone hopen
      rw [hnext] at hstep
      exact hstep
    · have hexhausted : run.Exhausted := by
        rw [Exhausted, hnext]
        exact hend
      obtain ⟨hanswer, hsame, hspace⟩ := h.ask_of_exhausted me target hexhausted
      refine ⟨?_, hspace, hsame, ?_, ?_⟩
      · rw [hnone] at hanswer
        exact congrArg (fun id? => run.answers ++ [(target, id?)]) hanswer
      · exact fun scope w i => h.replyId_of_exhausted hexhausted hnone scope
      · intro later
        obtain ⟨hstill, hdrawn⟩ :=
          h.along_of_exhausted hexhausted (.request me target :: later)
        refine ⟨hstill, hdrawn, fun other you hother => ?_⟩
        have hover : (after.along later).Exhausted := by
          rw [Exhausted, show (after.along later).space = run.space from hstill]
          exact hexhausted
        have hrefused := (((h.step _).along later).ask_of_exhausted you other hover).1
        rw [hother] at hrefused
        exact hrefused

private def first : ObjectRef := ⟨0, 0, "Object", none⟩

private def second : ObjectRef := ⟨1, 1, "Object", none⟩

/-- An object gets the last id of the word, a symbol and a shared object get none. -/
def lastId : List IdEvent :=
  [.request 0 (.object first), .request 0 (.symbol "name"), .share second,
    .request 1 (.object second)]

theorem ids_never_wrap_lastId :
    let run := (start 18446744073709551596 : IdRun Finalizer).along lastId
    run.drawn = [18446744073709551612] ∧
      run.ask 1 (.object first) = (some 18446744073709551612, run.heap, run.space) ∧
      (run.step (.request 1 (.object second))).space = run.space ∧
      ((run.step (.request 1 (.object second))).ask 0 (.symbol "name")).1 = none := by
  intro run
  obtain ⟨hdrawn, -, -, hkept, hask⟩ := ids_never_wrap 18446744073709551596 lastId
  have hone : run.drawn.length = 1 := by decide +kernel
  have hnone : run.held? (.object second) = none := by decide +kernel
  obtain ⟨-, hspace, -, -, hlater⟩ := (hask (.object second) 1 hnone).2 (by
    rw [hone]
    decide +kernel)
  refine ⟨?_, hkept _ _ 1 (by decide +kernel), hspace, (hlater []).2.2 _ 0 (by decide +kernel)⟩
  rw [hone] at hdrawn
  exact hdrawn

end IdRun

end RubyRuntime
