import RubyRuntime.Proofs.ObjectSpace.Requests

/-!
# Requests for the id of one shared object

Several requests for the id of a shared object are under way at once, each with its own next access.
`Guarded` says what they have done to the id field, the counter and the registry so far, and each
access keeps it: one of them at most is past the lock, the field is written once, and whoever comes
later reads it. A request that waits for the lock waits for one that can go on.
-/
namespace RubyRuntime

open ObjectId

namespace IdRequest

def isLocked : IdRequest → Bool
  | rereading | drawing true | writing true _ | registering true _ | unlocking _ => true
  | _ => false

def id? : IdRequest → Option Nat
  | writing _ id | registering _ id => some id
  | unlocking id? | finished id? => id?
  | _ => none

def isFinished : IdRequest → Bool
  | finished _ => true
  | _ => false

def rank : IdRequest → Nat
  | reading => 7
  | locking => 6
  | rereading => 5
  | drawing _ => 4
  | writing _ _ => 3
  | registering _ _ => 2
  | unlocking _ => 1
  | finished _ => 0

/-- What a request for the id of a shared object may know, given the id field, the ids that were
drawn for the object, and the counter. -/
def Fits (field : Nat) (drawn : List Nat) (counter : Nat) : IdRequest → Prop
  | reading | locking | rereading => True
  | drawing locked => locked ∧ field = 0
  | writing locked id => locked ∧ field = 0 ∧ id ∈ drawn
  | registering locked id => locked ∧ field = id ∧ id ≠ 0
  | unlocking (some id) | finished (some id) => field = id ∧ id ≠ 0
  | unlocking none | finished none => wordBound ≤ counter + counterStride

section Fits

variable {field field' counter counter' : Nat} {drawn drawn' : List Nat} {request : IdRequest}

theorem Fits.mono (h : request.Fits field drawn counter) (hdrawn : ∀ id ∈ drawn, id ∈ drawn')
    (hcounter : counter ≤ counter') : request.Fits field drawn' counter' := by
  cases request with
  | writing locked id => exact ⟨h.1, h.2.1, hdrawn id h.2.2⟩
  | unlocking id? =>
      cases id? with
      | some id => exact h
      | none => exact Nat.le_trans h (Nat.add_le_add_right hcounter _)
  | finished id? =>
      cases id? with
      | some id => exact h
      | none => exact Nat.le_trans h (Nat.add_le_add_right hcounter _)
  | _ => exact h

theorem Fits.of_free (h : request.Fits 0 drawn counter) (hfree : request.isLocked = false) :
    request.Fits field drawn counter := by
  cases request with
  | drawing locked =>
      obtain ⟨rfl, -⟩ := h
      cases hfree
  | writing locked id =>
      obtain ⟨rfl, -⟩ := h
      cases hfree
  | registering locked id =>
      obtain ⟨rfl, -⟩ := h
      cases hfree
  | unlocking id? => cases hfree
  | finished id? =>
      cases id? with
      | some id => exact absurd h.1.symm h.2
      | none => exact h
  | _ => trivial

end Fits

theorem rank_step_lt {request : IdRequest} (hopen : ¬ request.isFinished) (hne : request ≠ locking)
    (me : Nat) (o : ObjectRef) (heap : Heap) (ids : IdTable) :
    (request.step me o heap ids).1.rank < request.rank := by
  cases request with
  | reading =>
      simp only [step]
      split
      · simp [rank]
      · split <;> simp [rank]
  | locking => exact absurd rfl hne
  | rereading =>
      simp only [step]
      split <;> simp [rank]
  | drawing locked =>
      simp only [step]
      split
      · simp [rank]
      · split <;> simp [rank]
  | registering locked id =>
      simp only [step]
      split <;> simp [rank]
  | finished id? => exact absurd rfl hopen
  | _ => simp [step, rank]

end IdRequest

open IdRequest

/-- The state of a shared object with the requests for its id that are under way or over, the ids
drawn for it since it had the id `former`, and the ids under which the registry lists it. -/
structure Guarded (former : Nat) (state : ObjectState) (requests : List IdRequest)
    (drawn : List Nat) (entered : Nat → Prop) (counter : Nat) : Prop where
  shared : state.shared
  lock : requests.countP isLocked = if state.lockedBy.isSome then 1 else 0
  fits : ∀ request ∈ requests, request.Fits state.id drawn counter
  nonzero : ∀ id ∈ drawn, id ≠ 0
  drawn_once : drawn.length ≤ 1
  former_eq : former ≠ 0 → state.id = former ∧ drawn = []
  pending : ∀ id ∈ drawn, state.id = id ∨ writing true id ∈ requests
  source : state.id ≠ 0 → state.id = former ∨ state.id ∈ drawn
  entered_eq : ∀ id, entered id → state.id = id ∧ id ≠ 0
  listed : state.id ≠ 0 → entered state.id ∨ registering true state.id ∈ requests

namespace Guarded

variable {former : Nat} {state : ObjectState} {before after requests : List IdRequest}
  {request request' : IdRequest} {drawn : List Nat} {entered : Nat → Prop} {counter : Nat}

private theorem mem_replace {r : IdRequest} (h : r ∈ before ++ request :: after)
    (hne : r ≠ request) : r ∈ before ++ request' :: after := by
  grind

private theorem countP_locked : (before ++ request :: after).countP isLocked =
    before.countP isLocked + after.countP isLocked + if request.isLocked then 1 else 0 := by
  rw [List.countP_append, List.countP_cons, Nat.add_assoc]

theorem go_on (h : Guarded former state (before ++ request :: after) drawn entered counter)
    {holder : Option Nat}
    (hlock : (before ++ request' :: after).countP isLocked = if holder.isSome then 1 else 0)
    (hfits : request'.Fits state.id drawn counter)
    (hwriting : ∀ id, request ≠ writing true id)
    (hregistering : ∀ id, request = registering true id → entered id) :
    Guarded former { state with lockedBy := holder } (before ++ request' :: after) drawn entered
      counter where
  shared := h.shared
  lock := hlock
  fits := fun r hr => by
    by_cases heq : r = request'
    · exact heq ▸ hfits
    · exact h.fits r (mem_replace hr heq)
  nonzero := h.nonzero
  drawn_once := h.drawn_once
  former_eq := h.former_eq
  pending := fun id hid =>
    (h.pending id hid).imp_right fun hmem => mem_replace hmem (hwriting id).symm
  source := h.source
  entered_eq := h.entered_eq
  listed := fun hid => by
    rcases h.listed hid with hentered | hmem
    · exact .inl hentered
    · by_cases heq : registering true state.id = request
      · exact .inl (hregistering _ heq.symm)
      · exact .inr (mem_replace hmem heq)

theorem replace (h : Guarded former state (before ++ request :: after) drawn entered counter)
    (hlocked : request'.isLocked = request.isLocked)
    (hfits : request'.Fits state.id drawn counter)
    (hwriting : ∀ id, request ≠ writing true id)
    (hregistering : ∀ id, request = registering true id → entered id) :
    Guarded former state (before ++ request' :: after) drawn entered counter := by
  have hlock : (before ++ request' :: after).countP isLocked =
      if state.lockedBy.isSome then 1 else 0 := by
    rw [← h.lock, countP_locked, countP_locked, hlocked]
  exact h.go_on hlock hfits hwriting hregistering

theorem frame (h : Guarded former state requests drawn entered counter) {state' : ObjectState}
    {entered' : Nat → Prop} {counter' : Nat} (hshared : state'.shared)
    (hlocked : state'.lockedBy = state.lockedBy) (hid : state'.id = state.id)
    (hentered : ∀ id, entered' id ↔ entered id) (hcounter : counter ≤ counter') :
    Guarded former state' requests drawn entered' counter' where
  shared := hshared
  lock := hlocked ▸ h.lock
  fits := fun r hr => hid ▸ (h.fits r hr).mono (fun _ => id) hcounter
  nonzero := h.nonzero
  drawn_once := h.drawn_once
  former_eq := hid ▸ h.former_eq
  pending := hid ▸ h.pending
  source := hid ▸ h.source
  entered_eq := fun id hentry => hid ▸ h.entered_eq id ((hentered id).mp hentry)
  listed := fun hne => by
    rw [hentered, hid]
    exact h.listed (hid ▸ hne)

theorem start (hshared : state.shared) (hunlocked : state.lockedBy = none)
    (hentered : ∀ id, entered id ↔ state.id = id ∧ id ≠ 0) :
    Guarded state.id state [] [] entered counter where
  shared := hshared
  lock := by simp [hunlocked]
  fits := by simp
  nonzero := by simp
  drawn_once := by simp
  former_eq := fun _ => ⟨rfl, rfl⟩
  pending := by simp
  source := fun _ => .inl rfl
  entered_eq := fun id => (hentered id).mp
  listed := fun hne => .inl ((hentered _).mpr ⟨rfl, hne⟩)

theorem arrive (h : Guarded former state requests drawn entered counter) :
    Guarded former state (requests ++ [reading]) drawn entered counter where
  shared := h.shared
  lock := by simp [List.countP_append, isLocked, h.lock]
  fits := fun r hr => by
    rcases List.mem_append.mp hr with hr | hr
    · exact h.fits r hr
    · rw [List.mem_singleton.mp hr]
      trivial
  nonzero := h.nonzero
  drawn_once := h.drawn_once
  former_eq := h.former_eq
  pending := fun id hid => (h.pending id hid).imp_right (List.mem_append_left _)
  source := h.source
  entered_eq := h.entered_eq
  listed := fun hne => (h.listed hne).imp_right (List.mem_append_left _)

/-- Only one request is past the lock. -/
theorem free_of_locked (h : Guarded former state (before ++ request :: after) drawn entered counter)
    (hlocked : request.isLocked) :
    state.lockedBy.isSome ∧ ∀ r, r ∈ before ∨ r ∈ after → r.isLocked = false := by
  have hcount := h.lock
  simp only [List.countP_append, List.countP_cons, hlocked, if_true] at hcount
  split at hcount
  · next hsome =>
    refine ⟨hsome, fun r hr => ?_⟩
    have hbefore : before.countP isLocked = 0 := by omega
    have hafter : after.countP isLocked = 0 := by omega
    rw [List.countP_eq_zero] at hbefore hafter
    rcases hr with hr | hr
    · simpa using hbefore r hr
    · simpa using hafter r hr
  · omega

theorem lock_taken (h : Guarded former state (before ++ locking :: after) drawn entered counter)
    (hfree : state.lockedBy = none) (me : Nat) :
    Guarded former { state with lockedBy := some me } (before ++ rereading :: after) drawn entered
      counter := by
  have hlock : (before ++ rereading :: after).countP isLocked = 1 := by
    have hcount := h.lock
    rw [countP_locked, hfree] at hcount
    rw [countP_locked]
    simpa [isLocked] using hcount
  exact h.go_on hlock trivial (by simp) (by simp)

theorem lock_returned {id? : Option Nat}
    (h : Guarded former state (before ++ unlocking id? :: after) drawn entered counter) :
    Guarded former { state with lockedBy := none } (before ++ finished id? :: after) drawn entered
      counter := by
  have hlock : (before ++ finished id? :: after).countP isLocked = 0 := by
    have hcount := h.lock
    rw [countP_locked, if_pos (h.free_of_locked rfl).1] at hcount
    rw [countP_locked]
    simp only [isLocked, if_true, Bool.false_eq_true, if_false] at hcount ⊢
    omega
  have hfits : (finished id?).Fits state.id drawn counter := by
    have hbefore := h.fits (unlocking id?) (by simp)
    cases id? <;> exact hbefore
  exact h.go_on hlock hfits (by simp) (by simp)

theorem not_drawn
    (h : Guarded former state (before ++ drawing true :: after) drawn entered counter) :
    drawn = [] ∧ former = 0 := by
  have hzero : state.id = 0 := (h.fits (drawing true) (by simp)).2
  constructor
  · rw [List.eq_nil_iff_forall_not_mem]
    intro id hid
    rcases h.pending id hid with heq | hmem
    · exact h.nonzero id hid (heq ▸ hzero)
    · -- Only one request is past the lock, so nobody else can be about to write.
      obtain ⟨-, hfree⟩ := h.free_of_locked rfl
      simp only [List.mem_append, List.mem_cons, reduceCtorEq, false_or] at hmem
      cases hfree _ hmem
  · apply Decidable.byContradiction
    intro hne
    exact hne ((h.former_eq hne).1 ▸ hzero)

theorem draw (h : Guarded former state (before ++ drawing true :: after) drawn entered counter)
    {id : Nat} (hid : id ≠ 0) (hcounter : counter ≤ id) :
    Guarded former state (before ++ writing true id :: after) [id] entered id := by
  obtain ⟨rfl, rfl⟩ := h.not_drawn
  have hzero : state.id = 0 := (h.fits (drawing true) (by simp)).2
  have hempty : ¬ state.id ≠ 0 := fun hne => hne hzero
  exact
    { shared := h.shared
      lock := by
        rw [← h.lock, countP_locked, countP_locked]
        rfl
      fits := fun r hr => by
        by_cases heq : r = writing true id
        · rw [heq]
          exact ⟨rfl, hzero, by simp⟩
        · exact (h.fits r (mem_replace hr heq)).mono (by simp) hcounter
      nonzero := by simpa using hid
      drawn_once := by simp
      former_eq := fun hne => absurd rfl hne
      pending := by simp
      source := fun hne => absurd hne hempty
      entered_eq := h.entered_eq
      listed := fun hne => absurd hne hempty }

theorem write {id : Nat}
    (h : Guarded former state (before ++ writing true id :: after) drawn entered counter) :
    Guarded former { state with id } (before ++ registering true id :: after) drawn entered
      counter := by
  obtain ⟨-, hzero, hdrawn⟩ := h.fits (writing true id) (by simp)
  obtain ⟨-, hfree⟩ := h.free_of_locked rfl
  have hone : ∀ other ∈ drawn, other = id := by
    intro other hother
    have hlength := h.drawn_once
    match drawn, hlength, hother, hdrawn with
    | [_], _, hother, hdrawn => rw [List.mem_singleton.mp hother, List.mem_singleton.mp hdrawn]
  exact
    { shared := h.shared
      lock := by
        rw [← h.lock, countP_locked, countP_locked]
        rfl
      fits := fun r hr => by
        simp only [List.mem_append, List.mem_cons] at hr
        rcases hr with hr | rfl | hr
        · exact (hzero ▸ h.fits r (by simp [hr])).of_free (hfree r (.inl hr))
        · exact ⟨rfl, rfl, h.nonzero id hdrawn⟩
        · exact (hzero ▸ h.fits r (by simp [hr])).of_free (hfree r (.inr hr))
      nonzero := h.nonzero
      drawn_once := h.drawn_once
      former_eq := fun hne => absurd ((h.former_eq hne).1 ▸ hzero) hne
      pending := fun other hother => .inl (hone other hother).symm
      source := fun _ => .inr hdrawn
      entered_eq := fun other hentered => by
        obtain ⟨heq, hne⟩ := h.entered_eq other hentered
        exact absurd (heq ▸ hzero) hne
      listed := fun _ => .inr (by simp) }

theorem enter {id : Nat}
    (h : Guarded former state (before ++ registering true id :: after) drawn entered counter) :
    Guarded former state (before ++ unlocking (some id) :: after) drawn
      (fun other => other = id ∨ entered other) counter := by
  obtain ⟨-, heq, hne⟩ := h.fits (registering true id) (by simp)
  have hentered : Guarded former state (before ++ registering true id :: after) drawn
      (fun other => other = id ∨ entered other) counter :=
    { h with
      entered_eq := fun other hother => by
        rcases hother with rfl | hother
        · exact ⟨heq, hne⟩
        · exact h.entered_eq other hother
      listed := fun hid => (h.listed hid).imp_left .inr }
  refine hentered.replace rfl ⟨heq, hne⟩ (by simp) fun other hother => ?_
  cases hother
  exact .inl rfl

section Step

variable {o : ObjectRef} {heap heap' : Heap} {ids ids' : IdTable} {me : Nat}

def drawnBy (ids ids' : IdTable) (drawn : List Nat) : List Nat :=
  if ids'.counter = ids.counter then drawn else ids'.counter :: drawn

@[simp] theorem drawnBy_self : drawnBy ids ids drawn = drawn :=
  if_pos rfl

theorem step (h : Guarded former (heap.state o) (before ++ request :: after) drawn
      (fun id => (id, .object o) ∈ ids.registry) ids.counter)
    (hstep : request.step me o heap ids = (request', heap', ids')) :
    Guarded former (heap'.state o) (before ++ request' :: after) (drawnBy ids ids' drawn)
      (fun id => (id, .object o) ∈ ids'.registry) ids'.counter := by
  have hfits := h.fits request (by simp)
  have hstate : ∀ state, (heap.setState o state).state o = state := by
    simp [Heap.state_setState]
  cases request with
  | reading =>
      simp only [IdRequest.step] at hstep
      split at hstep
      · next hid =>
        cases hstep
        rw [drawnBy_self]
        exact h.replace rfl ⟨rfl, hid⟩ (by simp) (by simp)
      · have hshared : heap.isShared o := h.shared
        rw [if_pos hshared] at hstep
        cases hstep
        rw [drawnBy_self]
        exact h.replace rfl trivial (by simp) (by simp)
  | locking =>
      simp only [IdRequest.step] at hstep
      split at hstep
      · cases hstep
        rwa [drawnBy_self]
      · next hfree =>
        cases hstep
        rw [drawnBy_self, Heap.setIdLock, hstate]
        exact h.lock_taken (by simpa using hfree) me
  | rereading =>
      simp only [IdRequest.step] at hstep
      split at hstep
      · next hid =>
        cases hstep
        rw [drawnBy_self]
        exact h.replace rfl ⟨rfl, hid⟩ (by simp) (by simp)
      · next hid =>
        cases hstep
        rw [drawnBy_self]
        exact h.replace rfl ⟨rfl, Decidable.not_not.mp hid⟩ (by simp) (by simp)
  | drawing locked =>
      obtain ⟨rfl, -⟩ := hfits
      simp only [IdRequest.step, IdTable.next?_eq] at hstep
      by_cases hlt : ids.counter + counterStride < wordBound
      · rw [if_pos hlt] at hstep
        cases hstep
        have hmoved : ids.counter + counterStride ≠ ids.counter := by simp [counterStride]
        rw [drawnBy, if_neg hmoved, h.not_drawn.1]
        exact h.draw (by simp [counterStride]) (Nat.le_add_right _ _)
      · rw [if_neg hlt] at hstep
        cases hstep
        rw [drawnBy_self]
        exact h.replace rfl (Nat.le_of_not_lt hlt) (by simp) (by simp)
  | writing locked id =>
      obtain ⟨rfl, -⟩ := hfits
      cases hstep
      rw [drawnBy_self, Heap.writeId, hstate]
      exact h.write
  | registering locked id =>
      obtain ⟨rfl, -⟩ := hfits
      cases hstep
      have hids : (ids.register id (.object o)).counter = ids.counter := rfl
      rw [drawnBy, if_pos hids]
      refine h.enter.frame h.shared rfl rfl (fun other => ?_) (Nat.le_refl _)
      rw [IdTable.mem_registry_register]
      grind
  | unlocking id? =>
      cases hstep
      rw [drawnBy_self, Heap.setIdLock, hstate]
      exact h.lock_returned
  | finished id? =>
      cases hstep
      rwa [drawnBy_self]

end Step

/-- As long as a request is not finished, one of them has an access ahead that brings it on. -/
theorem exists_progress {o : ObjectRef} {heap : Heap}
    (h : Guarded former (heap.state o) requests drawn entered counter)
    (hopen : ∃ request ∈ requests, ¬ request.isFinished) (ids : IdTable) :
    ∃ request ∈ requests, ∀ me, (request.step me o heap ids).1.rank < request.rank := by
  obtain ⟨request, hmem, hunfinished⟩ := hopen
  by_cases hwaiting : request = locking
  · subst hwaiting
    cases hlock : (heap.state o).lockedBy with
    | none =>
        refine ⟨locking, hmem, fun me => ?_⟩
        simp [IdRequest.step, hlock, rank]
    | some holder =>
        -- Whoever has the lock is past waiting for it.
        have hcount : requests.countP isLocked = 1 := by simpa [hlock] using h.lock
        have hpos : 0 < requests.countP isLocked := by omega
        obtain ⟨inside, hinside, hlocked⟩ := List.countP_pos_iff.mp hpos
        refine ⟨inside, hinside, fun me => rank_step_lt ?_ ?_ me o heap ids⟩
        · rintro hfinished
          cases inside <;> cases hfinished
          cases hlocked
        · rintro rfl
          cases hlocked
  · exact ⟨request, hmem, fun me => rank_step_lt hunfinished hwaiting me o heap ids⟩

end Guarded

end RubyRuntime
