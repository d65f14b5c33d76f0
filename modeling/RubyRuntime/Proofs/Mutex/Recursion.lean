import RubyRuntime.Proofs.Mutex.Ownership
import RubyRuntime.Proofs.Session.Absences

/-!
# Recursive locking

A mutex refuses to be locked by the thread that holds it, but asks only once, before the thread has
to wait. While the thread waits it runs safepoint actions, which may take the very mutex; the wait
then adds a hold to it. The same goes for a mutex that is taken again after a condition wait or a
sleep. The main result is that there is no other way to a second hold: as long as the mutex is used
as a mutex, it has at most one hold at all times exactly if no such wait ends with a mutex that its
thread has taken in the meantime, and then one unlock frees it.
-/
namespace RubyRuntime

namespace Lock

theorem holds_of_acquire {t : ThreadId} {lock after : Lock} (h : lock.acquire t = .acquired after) :
    lock.owner = none ∧ after.holds = 1 ∨
      lock.owner = some t ∧ after.holds = lock.holds + 1 := by
  unfold acquire at h
  split at h
  · next hfree =>
    cases h
    exact .inl ⟨hfree, rfl⟩
  · next owner howner =>
    split at h
    · cases h
    · next hsame =>
      split at h
      · cases h
      · cases h
        have hsame : owner = t := Decidable.not_not.mp hsame
        exact .inr ⟨hsame ▸ howner, rfl⟩

theorem holds_eq_one {lock : Lock} {t : ThreadId} (hsane : lock.Sane) (howner : lock.owner = some t)
    (hsingle : lock.holds ≤ 1) : lock.holds = 1 := by
  have hpos := hsane.holds_ne_zero howner
  rw [UInt32.le_iff_toNat_le] at hsingle
  rw [Ne, ← UInt32.toNat_inj] at hpos
  rw [← UInt32.toNat_inj]
  simp only [UInt32.toNat_one, UInt32.toNat_zero] at hsingle hpos ⊢
  omega

theorem acquire_of_holder {lock : Lock} {t : ThreadId} (howner : lock.owner = some t)
    (hone : lock.holds = 1) : lock.acquire t = .acquired { lock with holds := 2 } := by
  simp [acquire, howner, hone, maxHolds]

theorem unlock_of_single {lock after : Lock} {t : ThreadId} (hsane : lock.Sane)
    (hsingle : lock.holds ≤ 1) (h : lock.unlock t = .ok after) :
    after.owner = none ∧ after.holds = 0 := by
  obtain ⟨howner, hafter⟩ := owner_of_unlock h
  have hone := holds_eq_one hsane howner hsingle
  rcases hafter with hfree | ⟨-, hleft, hpos⟩
  · exact hfree
  · rw [hone] at hleft
    exact absurd hleft hpos

theorem holds_releaseFully_le {t : ThreadId} {lock : Lock} (h : lock.holds ≤ 1) :
    (lock.releaseFully t).holds ≤ 1 := by
  unfold releaseFully
  split
  · exact UInt32.zero_le
  · exact h

end Lock

namespace Sync

variable {α : Type} {s s' : Sync α} {t : ThreadId} {k l : LockId}

theorem single_of_acquire (hacquire : s.acquire t k = .acquired s')
    (h : k = l → (s.lock l).owner ≠ some t) (hsingle : (s.lock l).holds ≤ 1) :
    (s'.lock l).holds ≤ 1 := by
  obtain ⟨lock, hlock, rfl⟩ := acquire_eq hacquire
  rw [lock_updateLock]
  split
  · next hk =>
    subst hk
    rcases Lock.holds_of_acquire hlock with ⟨-, hone⟩ | ⟨howner, -⟩
    · rw [hone]
      exact UInt32.le_refl 1
    · exact absurd howner (h rfl)
  · exact hsingle

theorem acquire_of_holder (howner : (s.lock l).owner = some t) (hone : (s.lock l).holds = 1) :
    ∃ s', s.acquire t l = .acquired s' ∧ (s'.lock l).holds = 2 := by
  refine ⟨s.updateLock l fun _ => { s.lock l with holds := 2 }, ?_, ?_⟩
  · rw [acquire, Lock.acquire_of_holder howner hone]
    rfl
  · rw [lock_updateLock, if_pos rfl]

theorem unlockInternal_of_single (hsane : (s.lock l).Sane) (hsingle : (s.lock l).holds ≤ 1)
    (howner : (s.lock l).owner = some t) :
    ∃ s', s.unlockInternal t l = .ok s' ∧ (s'.lock l).owner = none ∧ (s'.lock l).holds = 0 := by
  obtain ⟨lock, hlock⟩ : ∃ lock, (s.lock l).unlock t = .ok lock := by
    simp [Lock.unlock, howner]
  have hfree := Lock.unlock_of_single hsane hsingle hlock
  refine ⟨_, by rw [unlockInternal, hlock], ?_⟩
  split <;> simpa [lock_updateLock] using hfree

theorem single_of_unlockInternal (hunlock : s.unlockInternal t k = .ok s')
    (hsane : (s.lock l).Sane) (hsingle : (s.lock l).holds ≤ 1) : (s'.lock l).holds ≤ 1 := by
  obtain ⟨lock, hlock, rfl⟩ := unlockInternal_eq hunlock
  have hafter : ((s.updateLock k fun _ => lock).lock l).holds ≤ 1 := by
    rw [lock_updateLock]
    split
    · next hk =>
      subst hk
      rw [(Lock.unlock_of_single hsane hsingle hlock).2]
      exact UInt32.zero_le
    · exact hsingle
  split
  · exact hafter
  · exact hafter

theorem single_finishThread (t : ThreadId) (hsingle : (s.lock l).holds ≤ 1) :
    ((s.finishThread t).lock l).holds ≤ 1 := by
  rw [lock_finishThread]
  split
  · exact Lock.holds_releaseFully_le hsingle
  · exact hsingle

end Sync

/-- The holds that a wait has to restore, which it finds out by releasing its lock. -/
def WaitPhase.holds : WaitPhase → UInt32
  | entering | releasing => 0
  | registering holds | checking holds | parked holds _ | awake holds | polling holds
  | returning holds _ | leaving holds _ | relocking holds _ => holds

namespace ConditionWait.Steps

variable {α : Type} {now me : Nat} {wait : ConditionWait} {phase : WaitPhase} {s : Sync α}
  {after : WaitPhase × Sync α}

theorem holds (h : wait.Steps now me s phase after) :
    after.1.holds = phase.holds ∨ after.1.holds = (s.lock wait.lock).holdCount wait.thread := by
  cases h with
  | releases => exact .inr rfl
  | takes hphase hconsume => rcases hphase with rfl | rfl <;> exact .inl rfl
  | _ => exact .inl rfl

theorem single (h : wait.Steps now me s phase after) {l : LockId}
    (hsingle : (s.lock l).holds ≤ 1) : (after.2.lock l).holds ≤ 1 := by
  by_cases hphase : phase = .releasing
  · subst hphase
    simp only [h.eq_of_releasing, step, Sync.lock_updateThread, Sync.lock_updateLock]
    split
    · exact Lock.holds_releaseFully_le hsingle
    · exact hsingle
  · rw [(h.sameLocks hphase).holds]
    exact hsingle

end ConditionWait.Steps

namespace Session

def World.KeepsSingle (l : LockId) (w w' : World) : Prop :=
  (w.sync.lock l).holds ≤ 1 → (w'.sync.lock l).holds ≤ 1

namespace World

variable {w w' : World} {l : LockId}

theorem KeepsSingle.refl (w : World) : w.KeepsSingle l w :=
  id

theorem KeepsSingle.of_alike (h : w.Alike w') : w.KeepsSingle l w' := by
  intro hsingle
  rw [h.holds l]
  exact hsingle

theorem KeepsSingle.after {w'' : World} (h : w'.KeepsSingle l w'') (halike : w.Alike w') :
    w.KeepsSingle l w'' :=
  fun hsingle => h (KeepsSingle.of_alike halike hsingle)

theorem KeepsSingle.updateLock {k : LockId} (hk : k ≠ l) (w : World) (f : Lock → Lock) :
    w.KeepsSingle l (w.updateSync (·.updateLock k f)) := by
  intro hsingle
  simp only [World.updateSync, Sync.lock_updateLock, if_neg hk]
  exact hsingle

variable (w) (stack : List Frame) (t : ThreadId) (k : LockId)

theorem keepsSingle_startAcquire (due : Frame) (h : k = l → (w.sync.lock l).owner ≠ some t) :
    w.KeepsSingle l (w.startAcquire stack t k due).world := by
  unfold startAcquire
  split
  · next sync hacquire => exact Sync.single_of_acquire hacquire h
  · exact .of_alike (alike_updateThread w t fun _ => rfl)
  · exact .refl w

theorem keepsSingle_startMutex : w.KeepsSingle l (w.startMutex stack t k).world := by
  unfold startMutex
  split
  · exact .refl w
  · next hfree =>
    apply keepsSingle_startAcquire
    rintro rfl howner
    exact hfree (Sync.isHeld_iff.mpr howner)

theorem keepsSingle_startTryLock : w.KeepsSingle l (w.startTryLock stack t k).world := by
  unfold startTryLock
  split
  · exact .refl w
  · next hfree =>
    split
    · next sync hacquire =>
      apply Sync.single_of_acquire hacquire
      rintro rfl howner
      exact hfree (Sync.isHeld_iff.mpr howner)
    · exact .refl w
    · exact .refl w

theorem keepsSingle_release (hsane : (w.sync.lock l).Sane) :
    w.KeepsSingle l (w.release stack t k).world := by
  unfold release
  split
  · next sync hunlock => exact Sync.single_of_unlockInternal hunlock hsane
  · exact .refl w

theorem keepsSingle_recordAnd (outcome : Outcome) :
    w.KeepsSingle l (w.recordAnd stack t k outcome).world := by
  unfold recordAnd
  split
  · next sync hrecord =>
    obtain ⟨-, rfl⟩ := Sync.record?_eq hrecord
    exact .refl w
  · exact .refl w

theorem keepsSingle_relocked {holds : UInt32} (pending : Option Error) (h : k = l → holds ≤ 1) :
    w.KeepsSingle l (w.relocked stack t k holds pending).world := by
  intro hsingle
  unfold relocked
  apply keepsSingle_recordAnd
  simp only [World.updateSync, Sync.lock_updateLock]
  split
  · next hk =>
    subst hk
    unfold Lock.setHoldCount
    split
    · exact h rfl
    · exact hsingle
  · exact hsingle

theorem keepsSingle_guardOver (guard : GuardKind) (outcome : Outcome) :
    w.KeepsSingle l (w.guardOver stack t k guard outcome).world := by
  have hunlock : ∀ stack, w.KeepsSingle l (w.startUnlock stack t k).world := by
    intro stack
    unfold startUnlock
    split <;> exact .refl w
  unfold guardOver
  split
  · exact hunlock _
  · exact hunlock _
  · split <;> exact .refl w

end World

theorem Task.Begun.keepsSingle {task : Task} {w : World} {stack : List Frame} {l : LockId}
    (h : task.Begun w stack none) : w.KeepsSingle l task.world := by
  cases h with
  | launched h => exact .of_alike h.alike

theorem MutexOp.keepsSingle_start {l : LockId} (op : MutexOp) (w : World) (stack : List Frame)
    (hbare : ∀ t m, op.bare? = some (t, m) → (w.threadAndLock t m).2.1 ≠ l)
    (hsane : (w.sync.lock l).Sane) : w.KeepsSingle l (op.start w stack).world := by
  have hpair := World.alike_threadAndLock w
  have hother : op.locker? = none → op.bare? = none → (∀ cv, op ≠ .signal cv) →
      (∀ cv, op ≠ .broadcast cv) → w.KeepsSingle l (op.start w stack).world := by
    intro hlocker hbare hsignal hbroadcast
    have hbegun := op.begun_start w stack hbare hsignal hbroadcast
    rw [hlocker] at hbegun
    exact hbegun.keepsSingle
  cases op with
  | unlock t m =>
      refine World.KeepsSingle.after ?_ (hpair t m)
      dsimp only [MutexOp.start, World.startUnlock]
      split <;> exact .refl _
  | tryLock t m => exact (World.keepsSingle_startTryLock _ _ _ _).after (hpair t m)
  | unlockInternal t m =>
      refine World.KeepsSingle.after ?_ (hpair t m)
      apply World.keepsSingle_release
      rw [Lock.Sane, (hpair t m).owner l, (hpair t m).holds l]
      exact hsane
  | rawTry t m =>
      refine World.KeepsSingle.after ?_ (hpair t m)
      dsimp only [MutexOp.start]
      split
      · next sync hacquire =>
        exact Sync.single_of_acquire hacquire fun hl => absurd hl (hbare t m rfl)
      · exact .refl _
      · exact .refl _
  | rawUnlock t m =>
      refine World.KeepsSingle.after ?_ (hpair t m)
      dsimp only [MutexOp.start]
      split
      · exact .updateLock (hbare t m rfl) _ _
      · exact .refl _
  | rawRelease t m | rawSetHold t m holds =>
      exact (World.KeepsSingle.updateLock (hbare t m rfl) _ _).after (hpair t m)
  | signal cv | broadcast cv =>
      have hnamed : w.KeepsSingle l (w.conditionNamed cv).2 :=
        .of_alike (World.alike_conditionNamed w cv)
      exact hnamed
  | _ => exact hother rfl rfl (by simp) (by simp)

theorem CallOp.keepsSingle_start {l : LockId} (op : CallOp Body Step) (held : List ObjectRef)
    (w : World) (stack : List Frame)
    (hforced : ∀ t m, Op.forced? (.call op) = some (t, m) → (w.threadAndLock t m).2.1 ≠ l) :
    w.KeepsSingle l (op.start held w stack).world := by
  have hpair := World.alike_threadAndLock w
  have hother : op.locker? = none → (∀ t m, op ≠ .rawLock t m) →
      w.KeepsSingle l (op.start held w stack).world := by
    intro hlocker hbare
    have hbegun := op.begun_start held w stack hbare
    rw [hlocker] at hbegun
    exact hbegun.keepsSingle
  cases op with
  | lock t m | synchronize t m body | guarded t m body unlock =>
      exact (World.keepsSingle_startMutex _ _ _ _).after (hpair t m)
  | lockInternal t m | lockEven t m holds =>
      refine World.KeepsSingle.after ?_ (hpair t m)
      apply World.keepsSingle_startAcquire
      exact fun hl => absurd hl (hforced t m rfl)
  | rawLock t m => exact .of_alike (hpair t m)
  | mutexSleep t m timeout =>
      refine World.KeepsSingle.after ?_ (hpair t m)
      dsimp only [CallOp.start, World.startMutexSleep]
      split
      · exact .refl _
      · exact .of_alike (World.alike_updateThread _ _ fun _ => rfl)
  | wait t m cv timeout =>
      refine World.KeepsSingle.after ?_ (hpair t m)
      refine World.KeepsSingle.after ?_ (World.alike_conditionNamed _ cv)
      exact .of_alike (World.launched_startWait _ _ _ _ _ timeout).alike
  | _ => exact hother rfl (by simp)

namespace BodyRun

variable (run : BodyRun) (w : World) (stack : List Frame) {l : LockId}

theorem keepsSingle_conclude (failure : Option Error) :
    w.KeepsSingle l (run.conclude failure w stack).world := by
  unfold conclude
  dsimp only
  split
  · exact .refl w
  · exact Sync.single_finishThread _
  · exact .refl w
  · next t depth hkind =>
    have hcut : w.KeepsSingle l (w.cutStack t depth) := .of_alike (World.alike_cutStack w t depth)
    split <;> exact hcut

theorem keepsSingle_proceed : w.KeepsSingle l (run.proceed w stack).world := by
  unfold proceed
  split
  · exact run.keepsSingle_conclude w stack none
  · exact .refl w

end BodyRun

def Control.claim? (control : Control) (stack : List Frame) : Option (ThreadId × LockId) :=
  match control, stack with
  | .attempt wait, _ | .parked wait _ _, _ => wait.quest?
  | .condition wait (.relocking _ _) _, _ => some (wait.thread, wait.lock)
  | .give (.ok (.elapsed _)), .sleeping t l :: _
  | .give (.error (.error _)), .sleeping t l :: _ => some (t, l)
  | _, _ => none

theorem keepsSingle_acquire {w : World} {t : ThreadId} {k l : LockId} (ticket : Ticket)
    (h : k = l → (w.sync.lock l).owner ≠ some t) :
    w.KeepsSingle l ((Wait.acquire t k).attempt ticket w).1 := by
  dsimp only [Wait.attempt]
  split
  · next sync hacquire => exact Sync.single_of_acquire hacquire h
  · unfold Wait.unlessInterrupted
    split
    · exact .of_alike (World.alike_updateThread w _ fun _ => rfl)
    · exact .of_alike (Sync.Alike.updateLock w.sync k (fun _ => rfl) fun _ => rfl)
  · exact .refl w

theorem keepsSingle_attempt {w : World} {l : LockId} (wait : Wait) (ticket : Ticket)
    (h : ∀ t, wait.quest? = some (t, l) → (w.sync.lock l).owner ≠ some t) :
    w.KeepsSingle l (wait.attempt ticket w).1 := by
  cases wait with
  | acquire t k => exact keepsSingle_acquire ticket fun hk => h t (by rw [← hk]; rfl)
  | _ => exact .of_alike (ordinary_attempt ticket w rfl).1

theorem Frame.keepsSingle_receive {w : World} {l : LockId} (frame : Frame) (stack : List Frame)
    (outcome : Outcome)
    (hsleeping : ∀ t, (Control.give outcome).claim? (frame :: stack) = some (t, l) →
      (w.sync.lock l).owner ≠ some t)
    (hrelocking : ∀ t holds pending, frame = .relocking t l holds pending → holds ≤ 1) :
    w.KeepsSingle l (frame.receive w stack outcome).world := by
  have hplain : frame.actor? = none → frame.seat? = none → frame.quest? = none →
      w.KeepsSingle l (frame.receive w stack outcome).world := by
    intro hactor hseat hquest
    have hbegun := frame.begun_receive w stack outcome hseat hquest
    rw [hactor] at hbegun
    exact hbegun.keepsSingle
  cases frame with
  | acquiring t k =>
      cases outcome with
      | ok y => exact World.keepsSingle_recordAnd w stack t k _
      | error failure => exact .refl w
  | relocking t k holds pending =>
      rcases outcome with (err | _ | _ | _) | y
      · exact .of_alike (World.alike_updateThread w t fun _ => rfl)
      · exact .refl w
      · exact .refl w
      · exact .refl w
      · apply World.keepsSingle_relocked
        intro hk
        exact hrelocking t holds pending (by rw [hk])
  | sleeping t k =>
      have hrelock : ∀ stack holds, (k = l → (w.sync.lock l).owner ≠ some t) →
          w.KeepsSingle l (w.startRelock stack t k holds).world :=
        fun stack holds => World.keepsSingle_startAcquire w stack t k _
      rcases outcome with (err | _ | _ | _) | y
      · exact hrelock _ _ fun hk => hsleeping t (by rw [← hk]; rfl)
      · exact .refl w
      · exact .refl w
      · exact .refl w
      · cases y with
        | elapsed millis => exact hrelock _ _ fun hk => hsleeping t (by rw [← hk]; rfl)
        | _ => exact .refl w
  | guarding t k kind => exact World.keepsSingle_guardOver w stack t k kind outcome
  | blocking wait previous =>
      cases outcome with
      | ok y => exact .of_alike (World.alike_updateThread w _ fun _ => rfl)
      | error failure => exact .refl w
  | polled wait =>
      rcases outcome with (err | _ | _ | _) | y
      · exact .refl w
      · exact .refl w
      · exact .refl w
      · exact .refl w
      · exact .of_alike (World.alike_updateThread w _ fun _ => rfl)
  | _ => exact hplain rfl rfl rfl

def Absence.Modest (l : LockId) : Absence → Prop
  | waiting wait phase => wait.lock = l → phase.holds ≤ 1
  | relocking _ k holds => k = l → holds ≤ 1

namespace Machine

variable {m : Machine} {me : Nat} {e : Executor} {l : LockId}

/-- Whether the next step of executor `me` uses the lock `l` only as a mutex, if at all: it does not
work on the bare lock, and takes it only after asking who holds it. -/
def isRegular (l : LockId) (m : Machine) (me : Nat) : Bool :=
  m.spares l me && m.executors[me]?.bind (·.forced? m.world) != some l

/-- Whether the next step of executor `me` ends a wait for the lock `l` by taking it for the thread
that already holds it. -/
def retakes (l : LockId) (m : Machine) (me : Nat) : Bool :=
  (m.executors[me]?.bind fun e => e.control.claim? e.stack).any fun claim =>
    claim.2 == l && (m.world.sync.lock l).owner == some claim.1

private theorem owner_ne_of_claim {t : ThreadId} (he : m.executors[me]? = some e)
    (hretakes : m.retakes l me = false) (hclaim : e.control.claim? e.stack = some (t, l)) :
    (m.world.sync.lock l).owner ≠ some t := by
  simpa [retakes, he, hclaim] using hretakes

private theorem keepsSingle_perform {op : Op} (he : m.executors[me]? = some e)
    (hcontrol : e.control = .perform op) (hregular : m.isRegular l me)
    (hsane : (m.world.sync.lock l).Sane) :
    m.world.KeepsSingle l (m.perform me e op).world := by
  obtain ⟨hbare, hforced⟩ : (∀ t m', op.bare? = some (t, m') →
      (m.world.threadAndLock t m').2.1 ≠ l) ∧
      ∀ t m', op.forced? = some (t, m') → (m.world.threadAndLock t m').2.1 ≠ l := by
    simp only [isRegular, spares, tampered?, he, Option.bind_some, Executor.tampered?,
      Executor.forced?, hcontrol, Bool.and_eq_true, bne_iff_ne] at hregular
    constructor
    · intro t m' hop
      simpa [hop] using hregular.1
    · intro t m' hop
      simpa [hop] using hregular.2
  cases op with
  | thread op =>
      have halike := op.alike_perform ⟨me, e.current, m.held⟩ m.world
      by_cases hdetach : op = .detach
      · subst hdetach
        cases hcurrent : e.current with
        | none =>
          simp only [perform, ThreadOp.perform, hcurrent]
          exact .refl _
        | some t =>
            simp only [perform, ThreadOp.perform, hcurrent]
            exact Sync.single_finishThread t
      · exact .of_alike (halike fun h => absurd h hdetach)
  | mutex op =>
      simp only [perform]
      split
      · exact .refl _
      · exact op.keepsSingle_start m.world e.stack hbare hsane
  | queue op => exact .of_alike (op.alike_perform _)
  | object op => exact .of_alike (op.alike_perform _)
  | space op => exact .of_alike (op.alike_perform _ _)
  | weak op => exact .of_alike (op.alike_perform _ _)
  | stack op => exact .of_alike (op.alike_perform _)
  | call op =>
      cases op with
      | spawn name threadName body =>
          simp only [perform, spawn]
          split
          · exact .of_alike (Sync.Alike.createThread m.world.sync _)
          · exact (BodyRun.keepsSingle_proceed _ _ _).after
              (World.alike_newThread m.world name threadName)
      | join name =>
          simp only [perform]
          split <;> exact .refl _
      | _ => exact CallOp.keepsSingle_start _ _ m.world e.stack hforced

/-- A mutex is held once as long as it is used as a mutex and no wait takes it for its holder. -/
theorem keepsSingle_step (he : m.executors[me]? = some e) (hregular : m.isRegular l me)
    (hretakes : m.retakes l me = false) (hsane : (m.world.sync.lock l).Sane)
    (hmodest : ∀ absence ∈ e.absences, absence.Modest l) :
    m.world.KeepsSingle l (m.step me).world := by
  have hclaim : ∀ t, e.control.claim? e.stack = some (t, l) →
      (m.world.sync.lock l).owner ≠ some t := fun t => owner_ne_of_claim he hretakes
  -- Drawing a ticket and leaving the park touch no owner.
  have hentered : ∀ {w : World} {stack : List Frame} (wait : Wait) (ticket : Ticket),
      m.world.Alike w → (∀ t, wait.quest? = some (t, l) → (m.world.sync.lock l).owner ≠ some t) →
      m.world.KeepsSingle l
        (afterAttempt stack (wait.attempt ticket w).1 (wait.attempt ticket w).2).world := by
    intro w stack wait ticket halike hquest
    refine World.KeepsSingle.after ?_ halike
    rw [world_afterAttempt]
    apply keepsSingle_attempt
    intro t hwait
    rw [halike.owner l]
    exact hquest t hwait
  have hdoes := does he
  generalize m.step me = m' at hdoes ⊢
  cases hdoes with
  | idles hcontrol => exact .refl _
  | performs hcontrol => exact keepsSingle_perform he hcontrol hregular hsane
  | attempts hcontrol =>
      rw [hcontrol] at hclaim
      exact hentered _ _ (alike_drawTicket m.world) hclaim
  | @resumes wait old wakeAt hcontrol =>
      rw [hcontrol] at hclaim
      cases wait with
      | acquire t k =>
          refine hentered (.acquire t k) _ ((alike_drawTicket m.world).trans ?_) hclaim
          exact Sync.Alike.updateLock _ k (fun _ => rfl) fun _ => rfl
      | _ =>
          refine World.KeepsSingle.after ?_ (alike_drawTicket m.world)
          dsimp only [put]
          rw [world_afterAttempt]
          exact .of_alike (ordinary_resume old _ _ rfl).1
  | @releases t k hcontrol => exact World.keepsSingle_release m.world e.stack t k hsane
  | polls hcontrol hstack =>
      exact (World.KeepsSingle.of_alike (World.launched_startPoll _ _ _).alike).after
        (World.alike_updateThread _ _ fun _ => rfl)
  | refuses hcontrol hstack => exact .refl _
  | @continues wait phase wakeAt hcontrol =>
      have hown : m.world.KeepsSingle l
          { m.world with sync := (wait.step m.world.clock me phase m.world.sync).2 } :=
        (wait.steps m.world.clock me phase m.world.sync).single
      cases phase with
      | polling holds => exact .of_alike (World.launched_startPoll _ _ _).alike
      | relocking holds result =>
          rw [hcontrol] at hclaim
          apply World.keepsSingle_startAcquire
          rintro rfl
          exact hclaim wait.thread rfl
      | _ => exact hown
  | learns hcontrol => exact .refl _
  | @receives outcome frame base hcontrol hstack =>
      rw [hcontrol, hstack] at hclaim
      apply Frame.keepsSingle_receive frame base outcome hclaim
      rintro t holds pending rfl
      have habsent : Absence.relocking t l holds ∈ e.absences := by
        simp [Executor.absences, hcontrol, hstack, absencesOn, Frame.absence?]
      exact hmodest _ habsent rfl
  | finishes hcontrol hstack => exact .refl _
  | answers hcontrol =>
      dsimp only [put, receiveAnswer]
      split
      · split
        · exact BodyRun.keepsSingle_conclude _ _ _ _
        · exact BodyRun.keepsSingle_proceed _ _ _
      · have hshown := World.alike_snapshots m.world m.held m.watched
        dsimp only [nextStep]
        split <;> exact .of_alike hshown
      · exact .refl _

theorem holds_step_of_retakes (hretakes : m.retakes l me) (hsane : (m.world.sync.lock l).Sane)
    (hsingle : (m.world.sync.lock l).holds ≤ 1) : ((m.step me).world.sync.lock l).holds = 2 := by
  obtain ⟨e, he, t, hclaim, howner⟩ : ∃ e, m.executors[me]? = some e ∧
      ∃ t, e.control.claim? e.stack = some (t, l) ∧ (m.world.sync.lock l).owner = some t := by
    simp only [retakes, Option.any_eq_true, Option.bind_eq_some_iff, Bool.and_eq_true,
      beq_iff_eq, Prod.exists] at hretakes
    obtain ⟨t, k, ⟨e, he, hclaim⟩, rfl, howner⟩ := hretakes
    exact ⟨e, he, t, hclaim, howner⟩
  have hone := Lock.holds_eq_one hsane howner hsingle
  have htaken : ∀ {w : World}, m.world.Alike w →
      ∃ sync, w.sync.acquire t l = .acquired sync ∧ (sync.lock l).holds = 2 := by
    intro w halike
    rw [← halike.owner l] at howner
    rw [← halike.holds l] at hone
    exact Sync.acquire_of_holder howner hone
  have hrelock : ∀ stack holds,
      ((m.world.startRelock stack t l holds).world.sync.lock l).holds = 2 := by
    intro stack holds
    obtain ⟨sync, hacquire, htwo⟩ := htaken (.refl m.world)
    simpa [World.startRelock, World.startAcquire, hacquire, World.give] using htwo
  have hattempt : ∀ {w : World} (ticket : Ticket), m.world.Alike w →
      (((Wait.acquire t l).attempt ticket w).1.sync.lock l).holds = 2 := by
    intro w ticket halike
    obtain ⟨sync, hacquire, htwo⟩ := htaken halike
    simpa [Wait.attempt, hacquire] using htwo
  have hdraw := alike_drawTicket m.world
  unfold Control.claim? at hclaim
  split at hclaim
  · next wait hcontrol =>
    cases wait with
    | acquire t k =>
        cases hclaim
        simpa [step, he, hcontrol, put] using hattempt _ hdraw
    | _ => cases hclaim
  · next wait old wakeAt hcontrol =>
    cases wait with
    | acquire t k =>
        cases hclaim
        have hunpark : m.world.Alike
            (m.world.drawTicket.2.updateSync (·.updateLock l (·.unpark old))) :=
          hdraw.trans (Sync.Alike.updateLock _ l (fun _ => rfl) fun _ => rfl)
        simpa [step, he, hcontrol, put, Wait.resume] using hattempt _ hunpark
    | _ => cases hclaim
  · next wait holds result wakeAt hcontrol =>
    cases hclaim
    simpa [step, he, hcontrol, put, continueWait] using hrelock _ _
  · next millis t' l' stack hcontrol hstack =>
    cases hclaim
    simpa [step, he, hcontrol, hstack, put, Frame.receive] using hrelock _ _
  · next err t' l' stack hcontrol hstack =>
    cases hclaim
    simpa [step, he, hcontrol, hstack, put, Frame.receive] using hrelock _ _
  · cases hclaim

/-- The mutex `l` has at most one hold, and no absence from it is to end with more. -/
structure Single (l : LockId) (m : Machine) : Prop where
  holds : (m.world.sync.lock l).holds ≤ 1
  modest : ∀ {i : Nat} {x : Executor}, m.executors[i]? = some x →
    ∀ absence ∈ x.absences, absence.Modest l

private theorem modest_of_turns {before after : List Absence}
    (hturns : e.Turns m.world before after) (hforced : e.forced? m.world ≠ some l)
    (hbefore : ∀ absence ∈ before, absence.Modest l) : ∀ absence ∈ after, absence.Modest l := by
  have hpush : ∀ {absence : Absence} {rest : List Absence}, absence.Modest l →
      (∀ absence ∈ rest, absence.Modest l) → ∀ a ∈ absence :: rest, a.Modest l :=
    fun hfirst hrest => List.forall_mem_cons.mpr ⟨hfirst, hrest⟩
  cases hturns with
  | keeps => exact hbefore
  | begins wait => exact hpush (fun _ => UInt32.zero_le) hbefore
  | returns wait holds failure rest | relocks wait holds result rest =>
      rw [List.forall_mem_cons] at hbefore
      exact hpush hbefore.1 hbefore.2
  | takes t k holds _ hholds =>
      refine hpush ?_ hbefore
      rintro rfl
      rcases hholds with rfl | hsame
      · exact UInt32.le_refl 1
      · exact absurd hsame hforced
  | drops absence => exact (List.forall_mem_cons.mp hbefore).2
  | ends => simp

private theorem Single.modest_of_absenceStep (h : m.Single l) {absences : List Absence}
    (he : m.executors[me]? = some e) (hregular : m.isRegular l me)
    (hstep : AbsenceStep m me e absences) : ∀ absence ∈ absences, absence.Modest l := by
  have hbefore := h.modest he
  cases hstep with
  | waits wait phase wakeAt hcontrol hown hsync =>
      simp only [Executor.absences, hcontrol, Control.absence?, Option.toList_some,
        List.singleton_append, List.forall_mem_cons] at hbefore ⊢
      refine ⟨?_, hbefore.2⟩
      rintro rfl
      -- The wait finds out how many holds to restore when it releases the mutex.
      rcases (wait.steps m.world.clock me phase m.world.sync).holds with hsame | hnew
      · rw [hsame]
        exact hbefore.1 rfl
      · rw [hnew, Lock.holdCount]
        split
        · exact h.holds
        · exact UInt32.zero_le
  | turns hidle hturns =>
      refine modest_of_turns hturns ?_ hbefore
      simp only [isRegular, he, Option.bind_some, Bool.and_eq_true, bne_iff_ne] at hregular
      exact hregular.2

theorem Single.step (h : m.Single l) (htidy : m.Tidy) (hregular : m.isRegular l me)
    (hretakes : m.retakes l me = false) : (m.step me).Single l := by
  constructor
  · cases he : m.executors[me]? with
    | none =>
        rw [Machine.step, he]
        exact h.holds
    | some e =>
        exact keepsSingle_step he hregular hretakes (htidy.sane l) (h.modest he) h.holds
  · intro i x hx
    by_cases hi : i = me
    · subst hi
      cases he : m.executors[i]? with
      | none =>
          rw [Machine.step, he] at hx
          exact h.modest hx
      | some e =>
          exact h.modest_of_absenceStep he hregular (absenceStep he hx)
    · rcases executors_step_cases hx with ⟨hsame, -⟩ | ⟨-, rfl, -⟩ | hfresh
      · exact h.modest hsame
      · exact absurd rfl hi
      · simp [absences_fresh hfresh]

theorem Single.start (script : Script) : script.start.Single l := by
  constructor
  · rw [script.alike_start.holds l]
    exact UInt32.zero_le
  · intro i x hx
    simp [absences_fresh (Script.fresh_start hx)]

/-- Along a run the mutex has at most one hold exactly if no wait takes it for its holder. -/
theorem Single.along_iff {moves : List Move} (h : m.Single l) (htidy : m.Tidy)
    (hrun : m.along (isRegular l) moves) :
    m.along (fun m me => !m.retakes l me) moves ↔
      m.along (fun m me => decide (((m.step me).world.sync.lock l).holds ≤ 1)) moves := by
  induction moves generalizing m with
  | nil => simp [along]
  | cons move moves ih =>
      cases move with
      | tick millis => exact ih ⟨h.holds, h.modest⟩ ⟨htidy.nodup, htidy.sane⟩ hrun
      | step me =>
          simp only [along, Bool.and_eq_true, decide_eq_true_eq, Bool.not_eq_true'] at hrun ⊢
          cases hretakes : m.retakes l me with
          | false =>
              have hafter := h.step htidy hrun.1 hretakes
              simp [hafter.holds, ih hafter (htidy.step me) hrun.2]
          | true =>
              have htwo := holds_step_of_retakes hretakes (htidy.sane l) h.holds
              simp [htwo]

theorem Single.follow {moves : List Move} (h : m.Single l) (htidy : m.Tidy)
    (hrun : m.along (isRegular l) moves) (hretakes : m.along (fun m me => !m.retakes l me) moves) :
    (m.follow moves).Single l := by
  have hboth : m.along (fun m me => isRegular l m me && !m.retakes l me) moves := by
    rw [along_and, hrun, hretakes]
    rfl
  refine (follow_keeps (P := fun m => m.Single l ∧ m.Tidy) ?_ ?_ hboth ⟨h, htidy⟩).1
  · rintro m me hstep ⟨h, htidy⟩
    simp only [Bool.and_eq_true, Bool.not_eq_true'] at hstep
    exact ⟨h.step htidy hstep.1 hstep.2, htidy.step me⟩
  · rintro m millis ⟨h, htidy⟩
    exact ⟨⟨h.holds, h.modest⟩, ⟨htidy.nodup, htidy.sane⟩⟩

end Machine

/-- A mutex has a second hold only through its waits. In every run in which the lock `l` is used as
a mutex only, it has at most one hold after each step exactly if no wait for it ends by taking it
for the thread that already holds it; and in such a run, the holder's unlock frees it. -/
theorem holds_single_iff_never_retaken (script : Script) (moves : List Move) (l : LockId)
    (hrun : script.start.along (Machine.isRegular l) moves) :
    let m := script.start.follow moves
    let strict := script.start.along (fun m me => !m.retakes l me) moves
    (strict ↔ script.start.along
        (fun m me => decide (((m.step me).world.sync.lock l).holds ≤ 1)) moves) ∧
      (strict → ∀ me e t, m.executors[me]? = some e → e.control = .releasing t l →
        (m.world.sync.lock l).owner = some t →
          ((m.step me).world.sync.lock l).owner = none ∧
            ((m.step me).world.sync.lock l).holds = 0) := by
  intro m strict
  have hsingle : script.start.Single l := .start script
  have htidy : script.start.Tidy := .start script
  refine ⟨hsingle.along_iff htidy hrun, ?_⟩
  intro hstrict me e t he hcontrol howner
  have hafter : m.Single l := hsingle.follow htidy hrun hstrict
  have htidy : m.Tidy := Machine.follow_always moves (fun m me h => h.step me)
    (fun m millis h => ⟨h.nodup, h.sane⟩) htidy
  obtain ⟨sync, hunlock, hfree⟩ := Sync.unlockInternal_of_single (htidy.sane l) hafter.holds howner
  simpa [Machine.step, he, hcontrol, Machine.put, World.release, hunlock, World.give] using hfree

/-- A thread waits for a mutex and is given an action that locks the mutex. When it is back from the
wait, it unlocks the mutex once. -/
def reclaim : Script where
  options := {}
  watched := []
  steps := [.mk false (.call (.lock "main" "m")),
    .mk false (.call (.spawn "w" none
      (.mk [.mk false (.call (.lock "w" "m")), .mk false (.mutex (.unlock "w" "m"))]
        none none .null))),
    .mk false (.thread (.submit "w" "again"
      (.mk [.mk false (.call (.lock "w" "m"))] none none .null))),
    .mk false (.mutex (.unlock "main" "m"))]

def reclaimWaits : List Move :=
  List.replicate 8 (.step 0) ++ List.replicate 2 (.step 1) ++ List.replicate 3 (.step 0) ++
    List.replicate 4 (.step 1) ++ [.step 0]

def reclaimMoves : List Move :=
  reclaimWaits ++ [.step 0] ++ List.replicate 9 (.step 1)

theorem holds_single_iff_never_retaken_reclaim :
    let waiting := reclaim.start.follow reclaimWaits
    ((waiting.step 0).world.sync.lock 0).holds = 0 ∧
      reclaim.start.along (Machine.isRegular 0) reclaimMoves ∧
      ¬ reclaim.start.along
        (fun m me => decide (((m.step me).world.sync.lock 0).holds ≤ 1)) reclaimMoves := by
  intro waiting
  have hwaits : reclaim.start.along (Machine.isRegular 0) reclaimWaits := by decide +kernel
  have hstrict : reclaim.start.along (fun m me => !m.retakes 0 me) reclaimWaits := by
    decide +kernel
  obtain ⟨e, he, hcontrol⟩ : ∃ e, waiting.executors[0]? = some e ∧ e.control = .releasing 0 0 :=
    ⟨_, rfl, rfl⟩
  have howner : (waiting.world.sync.lock 0).owner = some 0 := by decide +kernel
  obtain ⟨-, hfree⟩ := holds_single_iff_never_retaken reclaim reclaimWaits 0 hwaits
  have hmoves : reclaim.start.along (Machine.isRegular 0) reclaimMoves := by decide +kernel
  have hretaken : ¬ reclaim.start.along (fun m me => !m.retakes 0 me) reclaimMoves := by
    decide +kernel
  obtain ⟨hiff, -⟩ := holds_single_iff_never_retaken reclaim reclaimMoves 0 hmoves
  exact ⟨(hfree hstrict 0 e 0 he hcontrol howner).2, hmoves, fun h => hretaken (hiff.mpr h)⟩

/-- The mutex is used as a mutex only, has two holds, and is still locked after the unlock. -/
theorem reclaim_adds_hold :
    let m := reclaim.start.follow reclaimMoves
    let after := m.follow (List.replicate 7 (.step 1))
    reclaim.start.along (Machine.isRegular 0) (reclaimMoves ++ List.replicate 7 (.step 1)) ∧
      (m.world.sync.lock 0).holds = 2 ∧
      (after.world.sync.lock 0).owner = some 1 ∧ (after.world.sync.lock 0).holds = 1 := by
  intro m after
  have hrun : reclaim.start.along (Machine.isRegular 0)
      (reclaimMoves ++ List.replicate 7 (.step 1)) := by decide +kernel
  have htwo : (m.world.sync.lock 0).holds = 2 := by decide +kernel
  have howner : (after.world.sync.lock 0).owner = some 1 := by decide +kernel
  have hone : (after.world.sync.lock 0).holds = 1 := by decide +kernel
  exact ⟨hrun, htwo, howner, hone⟩

end Session

end RubyRuntime
