import RubyRuntime.Sync.Wait

/-!
# Reading and changing entries

What reading an entry gives after a change, and the changes that leave everything that ownership and
wake-ups depend on as it was: `Sync.Alike` compares two states by the owners and holds of all locks,
the locks on record of all threads, and all conditions.
-/
namespace RubyRuntime

variable {α β : Type}

theorem getD_changeEntry (fresh : β) (f : β → β) (i : Nat) (entries : List β) (j : Nat) :
    (changeEntry fresh f i entries)[j]?.getD fresh =
      if i = j then f (entries[j]?.getD fresh) else entries[j]?.getD fresh := by
  induction i generalizing entries j with
  | zero =>
      cases entries <;> cases j <;> simp [changeEntry]
  | succ i ih =>
      cases entries <;> cases j <;> simp [changeEntry, ih]

theorem getD_append_fresh (fresh : β) (entries : List β) (j : Nat) :
    (entries ++ [fresh])[j]?.getD fresh = entries[j]?.getD fresh := by
  by_cases h : j < entries.length
  · rw [List.getElem?_append_left h]
  · have h : entries.length ≤ j := Nat.not_lt.mp h
    rw [List.getElem?_append_right h, List.getElem?_eq_none h]
    cases j - entries.length <;> simp

namespace Sync

theorem thread_updateThread (s : Sync α) (t u : ThreadId)
    (f : ThreadRecord α → ThreadRecord α) :
    (s.updateThread t f).thread u = if t = u then f (s.thread u) else s.thread u :=
  getD_changeEntry _ _ _ _ _

@[simp] theorem lock_updateThread (s : Sync α) (t : ThreadId)
    (f : ThreadRecord α → ThreadRecord α) (l : LockId) : (s.updateThread t f).lock l = s.lock l :=
  rfl

@[simp] theorem condition_updateThread (s : Sync α) (t : ThreadId)
    (f : ThreadRecord α → ThreadRecord α) (c : ConditionId) :
    (s.updateThread t f).condition c = s.condition c :=
  rfl

theorem lock_updateLock (s : Sync α) (l k : LockId) (f : Lock → Lock) :
    (s.updateLock l f).lock k = if l = k then f (s.lock k) else s.lock k :=
  getD_changeEntry _ _ _ _ _

@[simp] theorem thread_updateLock (s : Sync α) (l : LockId) (f : Lock → Lock) (t : ThreadId) :
    (s.updateLock l f).thread t = s.thread t :=
  rfl

@[simp] theorem condition_updateLock (s : Sync α) (l : LockId) (f : Lock → Lock)
    (c : ConditionId) : (s.updateLock l f).condition c = s.condition c :=
  rfl

theorem condition_updateCondition (s : Sync α) (c d : ConditionId) (f : Condition → Condition) :
    (s.updateCondition c f).condition d = if c = d then f (s.condition d) else s.condition d :=
  getD_changeEntry _ _ _ _ _

theorem condition_updateCondition_self (s : Sync α) (c : ConditionId) (f : Condition → Condition) :
    (s.updateCondition c f).condition c = f (s.condition c) := by
  rw [condition_updateCondition, if_pos rfl]

@[simp] theorem thread_updateCondition (s : Sync α) (c : ConditionId) (f : Condition → Condition)
    (t : ThreadId) : (s.updateCondition c f).thread t = s.thread t :=
  rfl

@[simp] theorem lock_updateCondition (s : Sync α) (c : ConditionId) (f : Condition → Condition)
    (l : LockId) : (s.updateCondition c f).lock l = s.lock l :=
  rfl

theorem field_createThread {γ : Type} (s : Sync α) (name : Option String)
    (field : ThreadRecord α → γ) (hfield : field { name } = field {}) (t : ThreadId) :
    field ((s.createThread name).2.thread t) = field (s.thread t) := by
  simp only [createThread, thread]
  by_cases h : t < s.threads.length
  · rw [List.getElem?_append_left h]
  · have h : s.threads.length ≤ t := Nat.not_lt.mp h
    rw [List.getElem?_append_right h, List.getElem?_eq_none h]
    cases t - s.threads.length <;> simp [hfield]

theorem lock_createLock (s : Sync α) (l : LockId) : s.createLock.2.lock l = s.lock l :=
  getD_append_fresh _ _ l

theorem condition_createCondition (s : Sync α) (c : ConditionId) :
    s.createCondition.2.condition c = s.condition c :=
  getD_append_fresh _ _ c

/-- The owners and holds of all locks and the locks on record of all threads are the same. -/
structure SameLocks (s s' : Sync α) : Prop where
  owner : ∀ l, (s'.lock l).owner = (s.lock l).owner
  holds : ∀ l, (s'.lock l).holds = (s.lock l).holds
  owned : ∀ t, (s'.thread t).ownedLocks = (s.thread t).ownedLocks

/-- In addition, all conditions are the same. -/
structure Alike (s s' : Sync α) : Prop extends SameLocks s s' where
  condition : ∀ c, s'.condition c = s.condition c

theorem SameLocks.isHeld {s s' : Sync α} (h : s.SameLocks s') (t : ThreadId) (l : LockId) :
    s'.isHeld t l = s.isHeld t l := by
  simp [Sync.isHeld, Lock.isHeldBy, h.owner l]

namespace Alike

variable {s s' s'' : Sync α}

theorem of_eq (hlocks : s'.locks = s.locks) (hthreads : s'.threads = s.threads)
    (hconditions : s'.conditions = s.conditions) : s.Alike s' where
  owner l := by rw [lock, hlocks]; rfl
  holds l := by rw [lock, hlocks]; rfl
  owned t := by rw [thread, hthreads]; rfl
  condition c := by rw [Sync.condition, hconditions]; rfl

theorem refl (s : Sync α) : s.Alike s :=
  of_eq rfl rfl rfl

theorem trans (h : s.Alike s') (h' : s'.Alike s'') : s.Alike s'' where
  owner l := (h'.owner l).trans (h.owner l)
  holds l := (h'.holds l).trans (h.holds l)
  owned t := (h'.owned t).trans (h.owned t)
  condition c := (h'.condition c).trans (h.condition c)

theorem updateThread (s : Sync α) (t : ThreadId) {f : ThreadRecord α → ThreadRecord α}
    (hf : ∀ thread, (f thread).ownedLocks = thread.ownedLocks) : s.Alike (s.updateThread t f) where
  owner _ := rfl
  holds _ := rfl
  owned u := by
    rw [thread_updateThread]
    split
    · exact hf _
    · rfl
  condition _ := rfl

theorem updateLock (s : Sync α) (l : LockId) {f : Lock → Lock}
    (howner : ∀ lock, (f lock).owner = lock.owner) (hholds : ∀ lock, (f lock).holds = lock.holds) :
    s.Alike (s.updateLock l f) where
  owner k := by
    rw [lock_updateLock]
    split
    · exact howner _
    · rfl
  holds k := by
    rw [lock_updateLock]
    split
    · exact hholds _
    · rfl
  owned _ := rfl
  condition _ := rfl

theorem createThread (s : Sync α) (name : Option String) : s.Alike (s.createThread name).2 where
  owner _ := rfl
  holds _ := rfl
  owned := field_createThread s name (·.ownedLocks) rfl
  condition _ := rfl

theorem createLock (s : Sync α) : s.Alike s.createLock.2 where
  owner l := congrArg Lock.owner (lock_createLock s l)
  holds l := congrArg Lock.holds (lock_createLock s l)
  owned _ := rfl
  condition _ := rfl

theorem createCondition (s : Sync α) : s.Alike s.createCondition.2 where
  owner _ := rfl
  holds _ := rfl
  owned _ := rfl
  condition := condition_createCondition s

end Alike

end Sync

/-- What no step of a signal changes is the same once it is delivered. -/
theorem Signal.field_deliver {β : Type} (field : ThreadRecord α → β)
    (hstep : ∀ (signal : Signal α) thread, field (signal.step thread).2 = field thread)
    (signal : Signal α) (thread : ThreadRecord α) :
    field (signal.deliver thread) = field thread := by
  have hrun : ∀ n (signal : Signal α) thread, field (Signal.run n signal thread) =
      field thread := by
    intro n
    induction n with
    | zero => intro _ _; rfl
    | succ n ih =>
        intro signal thread
        rw [Signal.run, ih, hstep]
  exact hrun 6 signal thread

theorem Signal.ownedLocks_deliver (signal : Signal α) (thread : ThreadRecord α) :
    (signal.deliver thread).ownedLocks = thread.ownedLocks := by
  refine field_deliver (·.ownedLocks) (fun signal thread => ?_) signal thread
  cases signal <;> simp only [Signal.step] <;> try rfl
  split <;> rfl

theorem Parking.field_settle {β : Type} (field : ThreadRecord α → β) {now : Nat}
    {deadline : Option Nat}
    (hstep : ∀ (parking : Parking) thread,
      field (parking.step now deadline thread).2 = field thread)
    (parking : Parking) (thread : ThreadRecord α) :
    field (parking.settle now deadline thread).2 = field thread := by
  have hrun : ∀ n (parking : Parking) (thread : ThreadRecord α),
      field (parking.run now deadline n thread).2 = field thread := by
    intro n
    induction n with
    | zero => intro _ _; rfl
    | succ n ih =>
        intro parking thread
        have hone := hstep parking thread
        rw [Parking.run]
        split
        · next hs => rw [hs] at hone; exact hone
        · next hs => rw [hs] at hone; exact hone
        · next hs => rw [ih]; rw [hs] at hone; exact hone
  exact hrun 5 parking thread

theorem Parking.ownedLocks_settle (now : Nat) (deadline : Option Nat) (parking : Parking)
    (thread : ThreadRecord α) :
    (parking.settle now deadline thread).2.ownedLocks = thread.ownedLocks := by
  refine field_settle (·.ownedLocks) (fun parking thread => ?_) parking thread
  cases parking <;> simp only [Parking.step] <;> try split
  all_goals rfl

end RubyRuntime
