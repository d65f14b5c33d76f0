import RubyRuntime.Proofs.Sync.Moves

/-!
# Counting holds

Any thread may ask for a lock, drop its holds, and set their number to whatever it likes. Main
result: whatever threads have asked of a lock, it has an owner exactly if it has holds, a hold more
or less changes the count by exactly one, and a thread that drops its holds and takes the lock again
can set the count to what it was.
-/
namespace RubyRuntime

inductive HoldRequest where
  | acquire (t : ThreadId)
  | unlock (t : ThreadId)
  | release (t : ThreadId)
  | recount (t : ThreadId) (count : UInt32)

namespace HoldRequest

def thread : HoldRequest → ThreadId
  | acquire t | unlock t | release t | recount t _ => t

/-- The lock after a request; one that fails leaves it as it is. That a hold too many fails holds
where the arithmetic is checked for overflow only: unchecked, it would set the count to zero. -/
def perform (lock : Lock) : HoldRequest → Lock
  | acquire t =>
    match lock.acquire t with
    | .acquired after => after
    | .busy | .exhausted => lock
  | unlock t =>
    match lock.unlock t with
    | .ok after => after
    | .error _ => lock
  | release t => lock.releaseFully t
  | recount t count => lock.setHoldCount t count

def isAcquire : HoldRequest → Bool
  | acquire _ => true
  | unlock _ | release _ | recount _ _ => false

def count : HoldRequest → UInt32
  | recount _ count => count
  | acquire _ | unlock _ | release _ => 0

end HoldRequest

namespace Lock

def along (lock : Lock) (requests : List HoldRequest) : Lock :=
  requests.foldl HoldRequest.perform lock

/-- `t` drops all its holds, takes the lock and sets the count to what it dropped. -/
def reclaim (t : ThreadId) (lock : Lock) : Lock :=
  lock.along [.release t, .acquire t, .recount t (lock.holdCount t)]

variable {t : ThreadId} {lock after : Lock}

theorem holdCount_of_held (h : lock.owner = some t) : lock.holdCount t = lock.holds := by
  simp [holdCount, isHeldBy, h]

theorem holdCount_of_not_held (h : lock.owner ≠ some t) : lock.holdCount t = 0 := by
  simp [holdCount, isHeldBy, h]

theorem holdCount_le (t : ThreadId) (lock : Lock) : lock.holdCount t ≤ lock.holds := by
  unfold holdCount
  split
  · exact UInt32.le_refl _
  · exact UInt32.zero_le

theorem toNat_add_one {count : UInt32} (h : count ≠ maxHolds) :
    (count + 1).toNat = count.toNat + 1 := by
  have hlt : count.toNat < 4294967296 := count.toNat_lt
  have hne : count.toNat ≠ 4294967295 := fun heq => h (UInt32.toNat_inj.mp heq)
  rw [UInt32.toNat_add, UInt32.toNat_one]
  omega

theorem toNat_sub_one {count : UInt32} (h : count ≠ 0) :
    (count - 1).toNat + 1 = count.toNat := by
  have hpos : count.toNat ≠ 0 := fun heq => h (UInt32.toNat_inj.mp heq)
  have hle : (1 : UInt32) ≤ count := UInt32.le_iff_toNat_le.mpr (Nat.one_le_iff_ne_zero.mpr hpos)
  rw [UInt32.toNat_sub_of_le _ _ hle, UInt32.toNat_one]
  omega

theorem acquire_spec (t : ThreadId) (lock : Lock) :
    match lock.acquire t with
    | .acquired after => after.owner = some t ∧ after.holds.toNat = (lock.holdCount t).toNat + 1
    | .busy => ∃ owner, lock.owner = some owner ∧ owner ≠ t
    | .exhausted => lock.holdCount t = maxHolds := by
  cases howner : lock.owner with
  | none => simp [acquire, howner, holdCount_of_not_held]
  | some owner =>
      by_cases hsame : owner = t
      · subst hsame
        rw [holdCount_of_held howner]
        by_cases hmax : lock.holds = maxHolds
        · simp [acquire, howner, hmax]
        · simp [acquire, howner, hmax, toNat_add_one hmax]
      · simp [acquire, howner, hsame]

theorem unlock_spec (t : ThreadId) (hsane : lock.Sane) :
    match lock.unlock t with
    | .ok after => lock.owner = some t ∧ after.holds.toNat + 1 = lock.holds.toNat
    | .error _ => lock.owner ≠ some t := by
  cases howner : lock.owner with
  | none => simp [unlock, howner]
  | some owner =>
      by_cases hsame : owner = t
      · subst hsame
        have hone := toNat_sub_one (hsane.holds_ne_zero howner)
        by_cases hlast : lock.holds - 1 = 0
        · rw [hlast] at hone
          simp [unlock, howner, hlast, ← hone]
        · simp [unlock, howner, hlast, hone]
      · simp [unlock, howner, hsame]

theorem parked_of_acquire (h : lock.acquire t = .acquired after) : after.parked = lock.parked := by
  unfold acquire at h
  split at h
  · cases h
    rfl
  · split at h
    · cases h
    · split at h
      · cases h
      · cases h
        rfl

theorem parked_of_unlock (h : lock.unlock t = .ok after) :
    after.parked = lock.parked ∨ after.parked = lock.parked.notifyOne := by
  unfold unlock at h
  split at h
  · cases h
  · split at h
    · dsimp only at h
      split at h
      · cases h
        exact .inr rfl
      · cases h
        exact .inl rfl
    · cases h

end Lock

namespace HoldRequest

theorem perform_cases (lock : Lock) (request : HoldRequest) :
    request.perform lock = lock ∨
      (∃ t, request = acquire t ∧ lock.acquire t = .acquired (request.perform lock)) ∨
      (∃ t, request = unlock t ∧ lock.unlock t = .ok (request.perform lock)) ∨
      (∃ t, request = release t) ∨ ∃ t count, request = recount t count := by
  cases request with
  | acquire t =>
      cases hacquire : lock.acquire t with
      | acquired after => exact .inr (.inl ⟨t, rfl, by simp only [perform, hacquire]⟩)
      | busy | exhausted => exact .inl (by simp only [perform, hacquire])
  | unlock t =>
      cases hunlock : lock.unlock t with
      | ok after => exact .inr (.inr (.inl ⟨t, rfl, by simp only [perform, hunlock]⟩))
      | error e => exact .inl (by simp only [perform, hunlock])
  | release t => exact .inr (.inr (.inr (.inl ⟨t, rfl⟩)))
  | recount t count => exact .inr (.inr (.inr (.inr ⟨t, count, rfl⟩)))

variable {lock : Lock}

theorem turn (lock : Lock) (request : HoldRequest) :
    Lock.Turn request.thread lock (request.perform lock) := by
  rcases request.perform_cases lock with
    hsame | ⟨t, rfl, hacquire⟩ | ⟨t, rfl, hunlock⟩ | ⟨t, rfl⟩ | ⟨t, count, rfl⟩
  · rw [hsame]
    exact .same rfl rfl
  · exact .acquired hacquire
  · exact .unlocked hunlock
  · exact .released
  · exact .counted count

theorem parked_perform (lock : Lock) (request : HoldRequest) :
    (request.perform lock).parked = lock.parked ∨
      (request.perform lock).parked = lock.parked.notifyOne := by
  rcases request.perform_cases lock with
    hsame | ⟨t, rfl, hacquire⟩ | ⟨t, rfl, hunlock⟩ | ⟨t, rfl⟩ | ⟨t, count, rfl⟩
  · exact .inl (congrArg Lock.parked hsame)
  · exact .inl (Lock.parked_of_acquire hacquire)
  · exact Lock.parked_of_unlock hunlock
  · rw [perform, Lock.releaseFully]
    split
    · exact .inr rfl
    · exact .inl rfl
  · rw [perform, Lock.setHoldCount]
    split <;> exact .inl rfl

/-- A request adds at most one hold to those there are, or to those that it asks for. -/
theorem holds_perform_le (request : HoldRequest) (hsane : lock.Sane) {bound : UInt32}
    (hcount : request.count ≤ bound) {acquires : Nat}
    (hholds : lock.holds.toNat ≤ bound.toNat + acquires) :
    (request.perform lock).holds.toNat ≤
      bound.toNat + (acquires + if request.isAcquire then 1 else 0) := by
  rcases request.perform_cases lock with
    hsame | ⟨t, rfl, hacquire⟩ | ⟨t, rfl, hunlock⟩ | ⟨t, rfl⟩ | ⟨t, count, rfl⟩
  · rw [hsame]
    omega
  · have hspec := lock.acquire_spec t
    rw [hacquire] at hspec
    have hheld := UInt32.le_iff_toNat_le.mp (lock.holdCount_le t)
    simp only [isAcquire, if_true]
    omega
  · have hspec := Lock.unlock_spec t hsane
    rw [hunlock] at hspec
    omega
  · by_cases hheld : lock.owner = some t
    · rw [perform, (Lock.releaseFully_of_held hheld).2]
      exact Nat.zero_le _
    · rw [perform, Lock.releaseFully_of_not_held hheld]
      exact hholds
  · rw [perform, Lock.setHoldCount]
    split
    · exact Nat.le_trans (UInt32.le_iff_toNat_le.mp hcount) (Nat.le_add_right _ _)
    · exact hholds

end HoldRequest

namespace Lock

variable {t : ThreadId} {lock : Lock} {requests : List HoldRequest}

theorem sane_along (requests : List HoldRequest) (h : lock.Sane) : (lock.along requests).Sane :=
  List.foldlRecOn requests _ h fun _ hsane request _ => (request.turn _).sane hsane

theorem parked_along (requests : List HoldRequest) (h : lock.parked = {}) :
    (lock.along requests).parked = {} := by
  induction requests generalizing lock with
  | nil => exact h
  | cons request requests ih =>
      apply ih
      rcases request.parked_perform lock with hsame | hnotified
      · rw [hsame, h]
      · rw [hnotified, h]
        rfl

theorem holds_along_le (hsane : lock.Sane) {bound : UInt32}
    (hcounts : ∀ request ∈ requests, request.count ≤ bound) {acquires : Nat}
    (hholds : lock.holds.toNat ≤ bound.toNat + acquires) :
    (lock.along requests).holds.toNat ≤
      bound.toNat + (acquires + requests.countP (·.isAcquire)) := by
  induction requests generalizing lock acquires with
  | nil => exact hholds
  | cons request requests ih =>
      obtain ⟨hcount, hcounts⟩ := List.forall_mem_cons.mp hcounts
      have hafter := request.holds_perform_le hsane hcount hholds
      rw [List.countP_cons, Nat.add_comm (List.countP _ _), ← Nat.add_assoc acquires]
      exact ih ((request.turn lock).sane hsane) hcounts hafter

/-- The owner gets all its holds back, and a thread that is parked for the lock has been notified in
between. -/
theorem reclaim_of_held (hsane : lock.Sane) (h : lock.owner = some t) :
    lock.reclaim t = { lock with parked := lock.parked.notifyOne } := by
  have hpos : 0 < lock.holds := by
    rw [UInt32.pos_iff_ne_zero]
    exact hsane.holds_ne_zero h
  simp [reclaim, along, HoldRequest.perform, holdCount_of_held h, releaseFully, acquire,
    setHoldCount, isHeldBy, h, hpos]

theorem reclaim_of_foreign {owner : ThreadId} (h : lock.owner = some owner) (hne : owner ≠ t) :
    lock.reclaim t = lock := by
  simp [reclaim, along, HoldRequest.perform, releaseFully, acquire, setHoldCount, isHeldBy, h, hne]

theorem reclaim_of_free (h : lock.owner = none) :
    lock.reclaim t = { lock with owner := some t, holds := 1 } := by
  simp [reclaim, along, HoldRequest.perform, releaseFully, acquire, setHoldCount, isHeldBy, h,
    holdCount]

/-- Holds are counted exactly. Whatever threads have asked of a lock, it is free just when it has no
holds. The next unlock takes one hold from its owner, and the next attempt adds one unless the
thread has the greatest number of them, which needs that many holds to be set or taken. A thread
that drops its holds, takes the lock again and restores them leaves the lock as it was if anyone
owned it; a lock that was free is its own then. -/
theorem holds_counted_exactly (requests : List HoldRequest) (t : ThreadId) :
    let lock : Lock := along {} requests
    (lock.owner = none ↔ lock.holds = 0) ∧
      (match lock.unlock t with
        | .ok after => lock.owner = some t ∧ after.holds.toNat + 1 = lock.holds.toNat
        | .error _ => lock.owner ≠ some t) ∧
      (match lock.acquire t with
        | .acquired after => after.owner = some t ∧ after.holds.toNat = (lock.holdCount t).toNat + 1
        | .busy => ∃ owner, lock.owner = some owner ∧ owner ≠ t
        | .exhausted => lock.holdCount t = maxHolds) ∧
      (∀ bound, (∀ request ∈ requests, request.count ≤ bound) →
        lock.holds.toNat ≤ bound.toNat + requests.countP (·.isAcquire)) ∧
      lock.reclaim t =
        if lock.isLocked then lock else { lock with owner := some t, holds := 1 } := by
  intro lock
  have hstart : ({} : Lock).Sane := by simp [Sane]
  have hsane : lock.Sane := sane_along requests hstart
  refine ⟨hsane, unlock_spec t hsane, acquire_spec t lock, ?_, ?_⟩
  · intro bound hcounts
    have hholds : lock.holds.toNat ≤ bound.toNat + (0 + requests.countP (·.isAcquire)) :=
      holds_along_le hstart hcounts (Nat.zero_le _)
    rwa [Nat.zero_add] at hholds
  · cases howner : lock.owner with
    | none => rw [reclaim_of_free howner, isLocked, howner]; rfl
    | some owner =>
        rw [isLocked, howner]
        by_cases hmine : owner = t
        · subst hmine
          -- Nobody waits for the lock, so there is nobody to be notified.
          have hparked : lock.parked = {} := parked_along requests rfl
          have hnotified : lock.parked.notifyOne = lock.parked := by rw [hparked]; rfl
          rw [reclaim_of_held hsane howner, hnotified]
          rfl
        · exact reclaim_of_foreign howner hmine

/-- A free lock is not free any more when a thread has restored its holds, of which it had none; and
when the holds have been set to the greatest number, one more cannot be counted. -/
theorem free_lock_not_restored :
    let free : Lock := {}
    let full := free.along [.acquire 0, .recount 0 maxHolds]
    free.owner = none ∧ (free.reclaim 0).owner = some 0 ∧ full.acquire 0 = .exhausted :=
  ⟨rfl, rfl, rfl⟩

end Lock

end RubyRuntime
