import RubyRuntime.Proofs.Sync.Alike

/-!
# What a step does to the locks

`Sync.LockMove` lists everything that one step of a thread can do to the locks and to the lists of
locks on record. A thread can take a free lock, add to or drop from what it holds, and change its
own list; it cannot touch the lock or the list of another thread. A step that works on a bare lock,
without regard to the lists, is said to tamper with it. All other steps keep the list of a thread
within what it owns.
-/
namespace RubyRuntime

variable {α : Type}

namespace Lock

inductive Turn (t : ThreadId) (lock : Lock) : Lock → Prop where
  | same {after : Lock} (howner : after.owner = lock.owner) (hholds : after.holds = lock.holds) :
    Turn t lock after
  | acquired {after : Lock} (h : lock.acquire t = .acquired after) : Turn t lock after
  | unlocked {after : Lock} (h : lock.unlock t = .ok after) : Turn t lock after
  | released : Turn t lock (lock.releaseFully t)
  | counted (holds : UInt32) : Turn t lock (lock.setHoldCount t holds)

/-- A lock has no owner exactly when it has no holds. -/
def Sane (lock : Lock) : Prop :=
  lock.owner = none ↔ lock.holds = 0

theorem Sane.holds_ne_zero {t : ThreadId} {lock : Lock} (hsane : lock.Sane)
    (h : lock.owner = some t) : lock.holds ≠ 0 := by
  intro hzero
  rw [hsane.mpr hzero] at h
  cases h

theorem isHeldBy_iff {t : ThreadId} {lock : Lock} :
    lock.isHeldBy t = true ↔ lock.owner = some t := by
  simp [isHeldBy]

theorem owner_of_acquire {t : ThreadId} {lock after : Lock} (h : lock.acquire t = .acquired after) :
    after.owner = some t ∧ (lock.owner = none ∨ lock.owner = some t) := by
  unfold acquire at h
  split at h
  · next hfree =>
    cases h
    exact ⟨rfl, .inl hfree⟩
  · next owner howner =>
    split at h
    · cases h
    · next hsame =>
      have hsame : owner = t := Decidable.not_not.mp hsame
      subst hsame
      split at h
      · cases h
      · cases h
        exact ⟨howner, .inr howner⟩

theorem owner_of_unlock {t : ThreadId} {lock after : Lock} (h : lock.unlock t = .ok after) :
    lock.owner = some t ∧
      (after.owner = none ∧ after.holds = 0 ∨
        after.owner = some t ∧ after.holds = lock.holds - 1 ∧ after.holds ≠ 0) := by
  unfold unlock at h
  split at h
  · cases h
  · next owner howner =>
    split at h
    · next hsame =>
      subst hsame
      dsimp only at h
      split at h
      · cases h
        exact ⟨howner, .inl ⟨rfl, rfl⟩⟩
      · next hleft =>
        cases h
        exact ⟨howner, .inr ⟨howner, rfl, hleft⟩⟩
    · cases h

theorem releaseFully_of_not_held {t : ThreadId} {lock : Lock} (h : lock.owner ≠ some t) :
    lock.releaseFully t = lock := by
  simp [releaseFully, isHeldBy, h]

theorem releaseFully_of_held {t : ThreadId} {lock : Lock} (h : lock.owner = some t) :
    (lock.releaseFully t).owner = none ∧ (lock.releaseFully t).holds = 0 := by
  simp [releaseFully, isHeldBy, h]

theorem owner_setHoldCount (t : ThreadId) (holds : UInt32) (lock : Lock) :
    (lock.setHoldCount t holds).owner = lock.owner := by
  unfold setHoldCount
  split <;> rfl

theorem owner_releaseFully (t : ThreadId) (lock : Lock) :
    (lock.releaseFully t).owner ≠ some t ∧
      (lock.owner ≠ some t → (lock.releaseFully t).owner = lock.owner) := by
  by_cases h : lock.owner = some t
  · simp [releaseFully_of_held h, h]
  · simp [releaseFully_of_not_held h, h]

theorem owner_of_releaseFully {t u : ThreadId} {lock : Lock}
    (h : (lock.releaseFully t).owner = some u) : lock.owner = some u := by
  by_cases hheld : lock.owner = some t
  · simp [(releaseFully_of_held hheld).1] at h
  · rwa [releaseFully_of_not_held hheld] at h

theorem Turn.of_owner_ne {t u : ThreadId} {lock after : Lock} (h : Turn t lock after)
    (howner : lock.owner = some u) (hne : t ≠ u) :
    after.owner = lock.owner ∧ after.holds = lock.holds := by
  have hheld : lock.owner ≠ some t := by
    rw [howner]
    intro heq
    exact hne (Option.some.inj heq).symm
  cases h with
  | same hsame hholds => exact ⟨hsame, hholds⟩
  | acquired hacquire =>
      rcases (owner_of_acquire hacquire).2 with hfree | hmine
      · simp [hfree] at howner
      · exact absurd hmine hheld
  | unlocked hunlock => exact absurd (owner_of_unlock hunlock).1 hheld
  | released => rw [releaseFully_of_not_held hheld]; exact ⟨rfl, rfl⟩
  | counted holds => simp [setHoldCount, isHeldBy, hheld]

theorem Turn.owner_ne {t u : ThreadId} {lock after : Lock} (h : Turn t lock after)
    (howner : lock.owner ≠ some u) (hne : t ≠ u) : after.owner ≠ some u := by
  intro hafter
  cases h with
  | same hsame => exact howner (hsame.symm.trans hafter)
  | acquired hacquire =>
      rw [(owner_of_acquire hacquire).1] at hafter
      exact hne (Option.some.inj hafter)
  | unlocked hunlock =>
      rcases (owner_of_unlock hunlock).2 with ⟨hfree, -⟩ | ⟨hsame, -⟩
      · rw [hfree] at hafter
        cases hafter
      · rw [hsame] at hafter
        exact hne (Option.some.inj hafter)
  | released => exact howner (owner_of_releaseFully hafter)
  | counted holds =>
      rw [owner_setHoldCount] at hafter
      exact howner hafter

theorem Turn.sane {t : ThreadId} {lock after : Lock} (h : Turn t lock after) (hsane : lock.Sane) :
    after.Sane := by
  unfold Sane at *
  cases h with
  | same howner hholds => rw [howner, hholds]; exact hsane
  | acquired hacquire =>
      unfold acquire at hacquire
      split at hacquire
      · cases hacquire
        simp
      · next owner howner =>
        split at hacquire
        · cases hacquire
        · split at hacquire
          · cases hacquire
          · next hmax =>
            cases hacquire
            -- The count does not wrap around, because the greatest one was excluded.
            have hcount : lock.holds + 1 ≠ 0 := by
              intro hzero
              apply hmax
              have : lock.holds = 0 - 1 := by rw [← hzero]; simp
              rw [this]
              rfl
            simp [howner, hcount]
  | unlocked hunlock =>
      rcases (owner_of_unlock hunlock).2 with ⟨howner, hholds⟩ | ⟨howner, -, hholds⟩
      · simp [howner, hholds]
      · simp [howner, hholds]
  | released =>
      by_cases hheld : lock.owner = some t
      · obtain ⟨howner, hholds⟩ := releaseFully_of_held hheld
        simp [howner, hholds]
      · rw [releaseFully_of_not_held hheld]
        exact hsane
  | counted holds =>
      unfold setHoldCount
      split
      · next hset =>
        have howner : lock.owner = some t := isHeldBy_iff.mp hset.1
        have hpos : holds ≠ 0 := by
          intro hzero
          rw [hzero] at hset
          exact absurd hset.2 (by decide)
        simp [howner, hpos]
      · exact hsane

end Lock

namespace Sync

/-- What a step does to the locks and lists, on behalf of the thread `actor` if it does anything,
and tampering with the lock `tampered` if it does with any. -/
inductive LockMove : Option ThreadId → Option LockId → Sync α → Sync α → Prop where
  | still {actor : Option ThreadId} {tampered : Option LockId} {s s' : Sync α}
    (h : s.SameLocks s') : LockMove actor tampered s s'
  | acquire {t : ThreadId} {l : LockId} {tampered : Option LockId} {s s' : Sync α}
    (h : s.acquire t l = .acquired s') : LockMove (some t) tampered s s'
  | record {t : ThreadId} {l : LockId} {tampered : Option LockId} {s s' : Sync α}
    (h : s.record? t l = some s') : LockMove (some t) tampered s s'
  | relock {t : ThreadId} {l : LockId} {holds : UInt32} {tampered : Option LockId} {s s' : Sync α}
    (h : (s.updateLock l (·.setHoldCount t holds)).record? t l = some s') :
    LockMove (some t) tampered s s'
  | setHolds {tampered : Option LockId} (t : ThreadId) (l : LockId) (holds : UInt32) (s : Sync α) :
    LockMove (some t) tampered s (s.updateLock l (·.setHoldCount t holds))
  | unlock {t : ThreadId} {l : LockId} {tampered : Option LockId} {s s' : Sync α}
    (h : s.unlockInternal t l = .ok s') : LockMove (some t) tampered s s'
  | release {tampered : Option LockId} (t : ThreadId) (l : LockId) (s : Sync α) :
    LockMove (some t) tampered s
      ((s.updateLock l (·.releaseFully t)).updateThread t (·.removeOwned l))
  | finish {tampered : Option LockId} (t : ThreadId) (s : Sync α) :
    LockMove (some t) tampered s (s.finishThread t)
  | tamper {t : ThreadId} {l : LockId} {s : Sync α} {f : Lock → Lock}
    (h : Lock.Turn t (s.lock l) (f (s.lock l))) : LockMove (some t) (some l) s (s.updateLock l f)

variable {s s' : Sync α} {t u : ThreadId} {l k : LockId} {actor : Option ThreadId}
  {tampered : Option LockId}

theorem isHeld_iff : s.isHeld t l = true ↔ (s.lock l).owner = some t :=
  Lock.isHeldBy_iff

theorem acquire_eq (h : s.acquire t l = .acquired s') :
    ∃ lock, (s.lock l).acquire t = .acquired lock ∧ s' = s.updateLock l fun _ => lock := by
  unfold acquire at h
  cases hlock : (s.lock l).acquire t with
  | acquired lock =>
      rw [hlock] at h
      cases h
      exact ⟨lock, rfl, rfl⟩
  | busy =>
      rw [hlock] at h
      cases h
  | exhausted =>
      rw [hlock] at h
      cases h

theorem owner_of_acquire (h : s.acquire t l = .acquired s') : (s'.lock l).owner = some t := by
  obtain ⟨lock, hlock, rfl⟩ := acquire_eq h
  rw [lock_updateLock, if_pos rfl]
  exact (Lock.owner_of_acquire hlock).1

theorem owner_after_acquire {u : ThreadId} {k : LockId} (h : s.acquire t l = .acquired s')
    (howner : (s'.lock k).owner = some u) : (t = u ∧ l = k) ∨ (s.lock k).owner = some u := by
  by_cases hlk : l = k
  · subst hlk
    exact .inl ⟨Option.some.inj ((owner_of_acquire h).symm.trans howner), rfl⟩
  · obtain ⟨lock, -, rfl⟩ := acquire_eq h
    rw [lock_updateLock, if_neg hlk] at howner
    exact .inr howner

theorem record?_eq (h : s.record? t l = some s') :
    s.isHeld t l = true ∧ s' = s.updateThread t (·.addOwned l) := by
  unfold record? at h
  split at h
  · next hheld =>
    cases h
    exact ⟨hheld, rfl⟩
  · cases h

theorem unlockInternal_eq (h : s.unlockInternal t l = .ok s') :
    ∃ lock, (s.lock l).unlock t = .ok lock ∧
      s' = if lock.holds = 0 then (s.updateLock l fun _ => lock).updateThread t (·.removeOwned l)
        else s.updateLock l fun _ => lock := by
  unfold unlockInternal at h
  split at h
  · next lock hlock =>
    cases h
    exact ⟨lock, hlock, rfl⟩
  · cases h

theorem condition_of_acquire (h : s.acquire t l = .acquired s') (c : ConditionId) :
    s'.condition c = s.condition c := by
  obtain ⟨lock, -, rfl⟩ := acquire_eq h
  rfl

theorem condition_of_record? (h : s.record? t l = some s') (c : ConditionId) :
    s'.condition c = s.condition c := by
  obtain ⟨-, rfl⟩ := record?_eq h
  rfl

theorem condition_of_unlockInternal (h : s.unlockInternal t l = .ok s') (c : ConditionId) :
    s'.condition c = s.condition c := by
  obtain ⟨lock, -, rfl⟩ := unlockInternal_eq h
  split <;> rfl

private theorem owner_of_mem_addOwned (hheld : (s.lock k).owner = some u)
    (hlisted : l ∈ (s.thread t).ownedLocks → (s.lock l).owner = some t)
    (hmem : l ∈ ((s.updateThread u (·.addOwned k)).thread t).ownedLocks) :
    (s.lock l).owner = some t := by
  rw [thread_updateThread] at hmem
  split at hmem
  · next hut =>
    subst hut
    rw [ThreadRecord.addOwned] at hmem
    split at hmem
    · exact hlisted hmem
    · rcases List.mem_append.mp hmem with hold | hnew
      · exact hlisted hold
      · rw [List.mem_singleton.mp hnew]
        exact hheld
  · exact hlisted hmem

private theorem mem_of_mem_removeOwned
    (hmem : l ∈ ((s.updateThread u (·.removeOwned k)).thread t).ownedLocks) :
    l ∈ (s.thread t).ownedLocks ∧ (u = t → l ≠ k) := by
  rw [thread_updateThread] at hmem
  split at hmem
  · simpa [ThreadRecord.removeOwned, *] using hmem
  · next hut => exact ⟨hmem, fun h => absurd h hut⟩

private theorem lock_foldl_releaseFully (owned : List LockId) (s : Sync α) (t : ThreadId)
    (k : LockId) :
    (owned.foldl (fun s l => s.updateLock l (·.releaseFully t)) s).lock k =
      if k ∈ owned then (s.lock k).releaseFully t else s.lock k := by
  have hidem : ∀ lock : Lock, (lock.releaseFully t).releaseFully t = lock.releaseFully t := by
    intro lock
    by_cases h : lock.owner = some t
    · apply Lock.releaseFully_of_not_held
      simp [(Lock.releaseFully_of_held h).1]
    · rw [Lock.releaseFully_of_not_held h, Lock.releaseFully_of_not_held h]
  induction owned generalizing s with
  | nil => simp
  | cons l owned ih =>
      rw [List.foldl_cons, ih, lock_updateLock]
      by_cases hl : l = k
      · subst hl
        by_cases hmem : l ∈ owned <;> simp [hmem, hidem]
      · have hk : k ≠ l := fun h => hl h.symm
        simp [hl, hk]

theorem thread_foldl_releaseFully (owned : List LockId) (s : Sync α) (t u : ThreadId) :
    (owned.foldl (fun s l => s.updateLock l (·.releaseFully t)) s).thread u = s.thread u := by
  induction owned generalizing s with
  | nil => rfl
  | cons l owned ih => rw [List.foldl_cons, ih, thread_updateLock]

private theorem condition_foldl_releaseFully (owned : List LockId) (s : Sync α) (t : ThreadId)
    (c : ConditionId) :
    (owned.foldl (fun s l => s.updateLock l (·.releaseFully t)) s).condition c =
      s.condition c := by
  induction owned generalizing s with
  | nil => rfl
  | cons l owned ih => rw [List.foldl_cons, ih, condition_updateLock]

/-- The end of a thread frees the locks that it has on record and holds. -/
theorem lock_finishThread (s : Sync α) (t : ThreadId) (k : LockId) :
    (s.finishThread t).lock k =
      if k ∈ (s.thread t).ownedLocks then (s.lock k).releaseFully t else s.lock k := by
  have howned : ((s.updateThread t fun thread => { thread with status := .dead }).thread
      t).ownedLocks = (s.thread t).ownedLocks := by
    simp [thread_updateThread]
  simp only [finishThread, releaseOwned, howned]
  exact lock_foldl_releaseFully _ _ _ _

theorem owner_of_finishThread (h : ((s.finishThread t).lock k).owner = some u) :
    (s.lock k).owner = some u := by
  rw [lock_finishThread] at h
  split at h
  · exact Lock.owner_of_releaseFully h
  · exact h

theorem owner_of_unlockInternal (h : s.unlockInternal t l = .ok s')
    (howner : (s'.lock k).owner = some u) : (s.lock k).owner = some u := by
  obtain ⟨lock, hlock, rfl⟩ := unlockInternal_eq h
  have hupdated : ((s.updateLock l fun _ => lock).lock k).owner = some u := by
    split at howner <;> exact howner
  rw [lock_updateLock] at hupdated
  split at hupdated
  · next hl =>
    subst hl
    obtain ⟨hbefore, ⟨hfree, -⟩ | ⟨hsame, -⟩⟩ := Lock.owner_of_unlock hlock
    · rw [hfree] at hupdated
      cases hupdated
    · rw [hbefore, ← hsame, hupdated]
  · exact hupdated

theorem ownedLocks_finishThread (s : Sync α) (t u : ThreadId) :
    ((s.finishThread t).thread u).ownedLocks =
      if t = u then [] else (s.thread u).ownedLocks := by
  have hthread : (s.finishThread t).thread u = (((s.updateThread t fun thread =>
      { thread with status := .dead }).updateThread t fun thread =>
        { thread with ownedLocks := [] }).thread u) :=
    thread_foldl_releaseFully _ _ _ _
  rw [hthread, thread_updateThread]
  split
  · rfl
  · next hne => rw [thread_updateThread, if_neg hne]

theorem condition_finishThread (s : Sync α) (t : ThreadId) (c : ConditionId) :
    (s.finishThread t).condition c = s.condition c :=
  condition_foldl_releaseFully _ _ _ _

namespace LockMove

theorem turn (h : LockMove actor tampered s s') (k : LockId) :
    (s'.lock k).owner = (s.lock k).owner ∧ (s'.lock k).holds = (s.lock k).holds ∨
      ∃ t, actor = some t ∧ Lock.Turn t (s.lock k) (s'.lock k) := by
  have hupdate : ∀ {t : ThreadId} {l : LockId} {f : Lock → Lock},
      Lock.Turn t (s.lock l) (f (s.lock l)) →
        Lock.Turn t (s.lock k) ((s.updateLock l f).lock k) := by
    intro t l f hturn
    rw [lock_updateLock]
    split
    · next hl => subst hl; exact hturn
    · exact .same rfl rfl
  cases h with
  | still hsame => exact .inl ⟨hsame.owner k, hsame.holds k⟩
  | acquire hacquire =>
      obtain ⟨lock, hlock, rfl⟩ := acquire_eq hacquire
      exact .inr ⟨_, rfl, hupdate (.acquired hlock)⟩
  | record hrecord =>
      obtain ⟨-, rfl⟩ := record?_eq hrecord
      exact .inl ⟨rfl, rfl⟩
  | relock hrelock =>
      obtain ⟨-, rfl⟩ := record?_eq hrelock
      exact .inr ⟨_, rfl, hupdate (.counted _)⟩
  | setHolds t l holds => exact .inr ⟨t, rfl, hupdate (.counted holds)⟩
  | unlock hunlock =>
      obtain ⟨lock, hlock, rfl⟩ := unlockInternal_eq hunlock
      refine .inr ⟨_, rfl, ?_⟩
      split
      · exact hupdate (.unlocked hlock)
      · exact hupdate (.unlocked hlock)
  | release t l => exact .inr ⟨t, rfl, hupdate .released⟩
  | finish t =>
      refine .inr ⟨t, rfl, ?_⟩
      rw [lock_finishThread]
      split
      · exact .released
      · exact .same rfl rfl
  | tamper hturn => exact .inr ⟨_, rfl, hupdate hturn⟩

theorem keeps_lock (h : LockMove actor tampered s s') (hactor : actor ≠ some t)
    (howner : (s.lock k).owner = some t) :
    (s'.lock k).owner = (s.lock k).owner ∧ (s'.lock k).holds = (s.lock k).holds := by
  rcases h.turn k with hsame | ⟨u, rfl, hturn⟩
  · exact hsame
  · apply hturn.of_owner_ne howner
    intro hut
    exact hactor (congrArg some hut)

theorem keeps_foreign (h : LockMove actor tampered s s') (hactor : actor ≠ some t)
    (howner : (s.lock k).owner ≠ some t) : (s'.lock k).owner ≠ some t := by
  rcases h.turn k with ⟨hsame, -⟩ | ⟨u, rfl, hturn⟩
  · rw [hsame]
    exact howner
  · apply hturn.owner_ne howner
    intro hut
    exact hactor (congrArg some hut)

theorem sane (h : LockMove actor tampered s s') (hsane : (s.lock k).Sane) : (s'.lock k).Sane := by
  rcases h.turn k with ⟨howner, hholds⟩ | ⟨t, -, hturn⟩
  · exact (Lock.Turn.same (t := 0) howner hholds).sane hsane
  · exact hturn.sane hsane

/-- What becomes of the list of one thread: a step for another one leaves it alone, and one for the
thread itself adds a lock, removes a lock, or empties it. -/
theorem list (h : LockMove actor tampered s s') (u : ThreadId) :
    (s'.thread u).ownedLocks = (s.thread u).ownedLocks ∨
      actor = some u ∧ ∃ l, (s'.thread u).ownedLocks = ((s.thread u).addOwned l).ownedLocks ∨
        (s'.thread u).ownedLocks = ((s.thread u).removeOwned l).ownedLocks ∨
        (s'.thread u).ownedLocks = [] := by
  have hupdate : ∀ {s : Sync α} {t : ThreadId} {f : ThreadRecord α → ThreadRecord α},
      ((s.updateThread t f).thread u).ownedLocks = (s.thread u).ownedLocks ∨
        t = u ∧ ((s.updateThread t f).thread u).ownedLocks = (f (s.thread u)).ownedLocks := by
    intro s t f
    rw [thread_updateThread]
    split
    · next htu => exact .inr ⟨htu, rfl⟩
    · exact .inl rfl
  cases h with
  | still hsame => exact .inl (hsame.owned u)
  | acquire hacquire =>
      obtain ⟨lock, -, rfl⟩ := acquire_eq hacquire
      exact .inl rfl
  | @record t l _ _ _ hrecord =>
      obtain ⟨-, rfl⟩ := record?_eq hrecord
      rcases hupdate (s := s) (t := t) (f := (·.addOwned l)) with hsame | ⟨rfl, hadd⟩
      · exact .inl hsame
      · exact .inr ⟨rfl, l, .inl hadd⟩
  | @relock t l holds _ _ _ hrelock =>
      obtain ⟨-, rfl⟩ := record?_eq hrelock
      rcases hupdate (s := s.updateLock l (·.setHoldCount t holds)) (t := t)
        (f := (·.addOwned l)) with hsame | ⟨rfl, hadd⟩
      · exact .inl hsame
      · exact .inr ⟨rfl, l, .inl hadd⟩
  | setHolds t l holds => exact .inl rfl
  | @unlock t l _ _ _ hunlock =>
      obtain ⟨lock, -, rfl⟩ := unlockInternal_eq hunlock
      split
      · rcases hupdate (s := s.updateLock l fun _ => lock) (t := t) (f := (·.removeOwned l))
          with hsame | ⟨rfl, hremove⟩
        · exact .inl hsame
        · exact .inr ⟨rfl, l, .inr (.inl hremove)⟩
      · exact .inl rfl
  | release t l =>
      rcases hupdate (s := s.updateLock l (·.releaseFully t)) (t := t) (f := (·.removeOwned l))
        with hsame | ⟨rfl, hremove⟩
      · exact .inl hsame
      · exact .inr ⟨rfl, l, .inr (.inl hremove)⟩
  | finish t =>
      rw [ownedLocks_finishThread]
      split
      · next htu => exact .inr ⟨congrArg some htu, 0, .inr (.inr rfl)⟩
      · exact .inl rfl
  | tamper hturn => exact .inl rfl

theorem keeps_list (h : LockMove actor tampered s s') (hactor : actor ≠ some t) :
    (s'.thread t).ownedLocks = (s.thread t).ownedLocks := by
  rcases h.list t with hsame | ⟨hactor', -⟩
  · exact hsame
  · exact absurd hactor' hactor

theorem nodup (h : LockMove actor tampered s s') (hnodup : (s.thread t).ownedLocks.Nodup) :
    (s'.thread t).ownedLocks.Nodup := by
  rcases h.list t with hsame | ⟨-, l, hadd | hremove | hempty⟩
  · rw [hsame]
    exact hnodup
  · rw [hadd, ThreadRecord.addOwned]
    split
    · exact hnodup
    · next hnew =>
      rw [List.nodup_append]
      refine ⟨hnodup, by simp, ?_⟩
      intro a ha b hb
      rw [List.mem_singleton.mp hb]
      intro hab
      exact hnew (hab ▸ ha)
  · rw [hremove]
    exact hnodup.filter _
  · rw [hempty]
    exact List.nodup_nil

private theorem listed_of_unlock (hunlock : s.unlockInternal u k = .ok s')
    (hlisted : l ∈ (s.thread t).ownedLocks → (s.lock l).owner = some t)
    (hmem : l ∈ (s'.thread t).ownedLocks) : (s'.lock l).owner = some t := by
  obtain ⟨lock, hlock, rfl⟩ := unlockInternal_eq hunlock
  obtain ⟨hbefore, hafter⟩ := Lock.owner_of_unlock hlock
  split at hmem
  · next hlast =>
    obtain ⟨hold, hother⟩ := mem_of_mem_removeOwned hmem
    rw [if_pos hlast, lock_updateThread, lock_updateLock]
    split
    · next hkl =>
      subst hkl
      rw [hbefore] at hlisted
      exact absurd rfl (hother (Option.some.inj (hlisted hold)))
    · exact hlisted hold
  · next hleft =>
    rw [if_neg hleft, lock_updateLock]
    split
    · next hkl =>
      subst hkl
      rcases hafter with ⟨-, hzero⟩ | ⟨howner, -⟩
      · exact absurd hzero hleft
      · rw [howner, ← hbefore]
        exact hlisted hmem
    · exact hlisted hmem

/-- The list of a thread holds only locks that it owns, unless one is tampered with. -/
theorem listed (h : LockMove actor tampered s s') (hclean : tampered ≠ some l)
    (hlisted : l ∈ (s.thread t).ownedLocks → (s.lock l).owner = some t)
    (hmem : l ∈ (s'.thread t).ownedLocks) : (s'.lock l).owner = some t := by
  cases h with
  | still hsame =>
      rw [hsame.owner]
      exact hlisted (hsame.owned t ▸ hmem)
  | @acquire u k _ _ _ hacquire =>
      obtain ⟨lock, hlock, rfl⟩ := acquire_eq hacquire
      have howner := hlisted hmem
      rw [lock_updateLock]
      split
      · next hkl =>
        subst hkl
        obtain ⟨hafter, hfree | hmine⟩ := Lock.owner_of_acquire hlock
        · simp [hfree] at howner
        · rw [hafter, ← hmine, howner]
      · exact howner
  | @record u k _ _ _ hrecord =>
      obtain ⟨hheld, rfl⟩ := record?_eq hrecord
      exact owner_of_mem_addOwned (s := s) (isHeld_iff.mp hheld) hlisted hmem
  | @relock u k holds _ _ _ hrelock =>
      obtain ⟨hheld, rfl⟩ := record?_eq hrelock
      refine owner_of_mem_addOwned (s := s.updateLock k (·.setHoldCount u holds))
        (isHeld_iff.mp hheld) ?_ hmem
      rw [lock_updateLock, thread_updateLock]
      intro hold
      split
      · rw [Lock.owner_setHoldCount]
        exact hlisted hold
      · exact hlisted hold
  | setHolds u k holds =>
      rw [lock_updateLock]
      split
      · rw [Lock.owner_setHoldCount]
        exact hlisted hmem
      · exact hlisted hmem
  | unlock hunlock => exact listed_of_unlock hunlock hlisted hmem
  | release u k =>
      obtain ⟨hold, hother⟩ := mem_of_mem_removeOwned hmem
      rw [lock_updateThread, lock_updateLock]
      split
      · next hkl =>
        subst hkl
        have hne : (s.lock k).owner ≠ some u := by
          rw [hlisted hold]
          intro htu
          exact hother (Option.some.inj htu).symm rfl
        rw [(Lock.owner_releaseFully u _).2 hne]
        exact hlisted hold
      · exact hlisted hold
  | finish u =>
      rw [ownedLocks_finishThread] at hmem
      split at hmem
      · cases hmem
      · next hut =>
        have hne : (s.lock l).owner ≠ some u := by
          rw [hlisted hmem]
          intro htu
          exact hut (Option.some.inj htu).symm
        rw [lock_finishThread]
        split
        · rw [(Lock.owner_releaseFully u _).2 hne]
          exact hlisted hmem
        · exact hlisted hmem
  | @tamper u k _ f hturn =>
      have hkl : k ≠ l := fun hkl => hclean (congrArg some hkl)
      rw [lock_updateLock, if_neg hkl]
      exact hlisted hmem

/-- A lock that its owner has on record stays there as long as it is owned. -/
theorem keeps_listed (h : LockMove actor tampered s s') (hmem : l ∈ (s.thread t).ownedLocks)
    (howner : (s'.lock l).owner = some t) : l ∈ (s'.thread t).ownedLocks := by
  have hremoved : ∀ {s : Sync α} {u : ThreadId} {k : LockId}, l ∈ (s.thread t).ownedLocks →
      (u = t → k ≠ l) → l ∈ ((s.updateThread u (·.removeOwned k)).thread t).ownedLocks := by
    intro s u k hold hother
    rw [thread_updateThread]
    split
    · next hut =>
      rw [ThreadRecord.removeOwned, List.mem_filter]
      exact ⟨hold, by simpa using (hother hut).symm⟩
    · exact hold
  have hadded : ∀ {s : Sync α} {u : ThreadId} {k : LockId}, l ∈ (s.thread t).ownedLocks →
      l ∈ ((s.updateThread u (·.addOwned k)).thread t).ownedLocks := by
    intro s u k hold
    rw [thread_updateThread]
    split
    · rw [ThreadRecord.addOwned]
      split
      · exact hold
      · exact List.mem_append_left _ hold
    · exact hold
  cases h with
  | still hsame => rw [hsame.owned]; exact hmem
  | acquire hacquire =>
      obtain ⟨lock, -, rfl⟩ := acquire_eq hacquire
      exact hmem
  | record hrecord =>
      obtain ⟨-, rfl⟩ := record?_eq hrecord
      exact hadded hmem
  | relock hrelock =>
      obtain ⟨-, rfl⟩ := record?_eq hrelock
      exact hadded hmem
  | setHolds u k holds => exact hmem
  | @unlock u k _ _ _ hunlock =>
      obtain ⟨lock, hlock, rfl⟩ := unlockInternal_eq hunlock
      split
      · next hlast =>
        apply hremoved hmem
        rintro - rfl
        rw [if_pos hlast, lock_updateThread, lock_updateLock, if_pos rfl] at howner
        rcases (Lock.owner_of_unlock hlock).2 with ⟨hfree, -⟩ | ⟨-, -, hleft⟩
        · simp [hfree] at howner
        · exact hleft hlast
      · exact hmem
  | release u k =>
      apply hremoved hmem
      rintro rfl rfl
      rw [lock_updateThread, lock_updateLock, if_pos rfl] at howner
      exact (Lock.owner_releaseFully u _).1 howner
  | finish u =>
      rw [ownedLocks_finishThread]
      split
      · next hut =>
        subst hut
        rw [lock_finishThread, if_pos hmem] at howner
        exact absurd howner (Lock.owner_releaseFully u _).1
      · exact hmem
  | tamper hturn => exact hmem

end LockMove

end Sync

end RubyRuntime
