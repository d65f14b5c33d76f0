import RubyRuntime.Proofs.Session.Launches
import RubyRuntime.Proofs.Sync.Moves

/-!
# Calls that work on mutexes

How calls on mutexes begin. A call that takes a mutex puts a frame on the stack that will record it,
and has the mutex or waits for it; a call that drops a hold was seen to have one. Everything else
that a call can begin with is harmless.
-/
namespace RubyRuntime.Session

/-- The task has begun in world `w` on `stack`, on behalf of `actor` if it works on a mutex. -/
inductive Task.Begun (w : World) (stack : List Frame) : Option ThreadId → Task → Prop where
  | launched {actor : Option ThreadId} {task : Task} (h : task.Launched w stack) :
    Begun w stack actor task
  | seated {t : ThreadId} {l : LockId} {due : Frame} {base : List Frame} {w' : World}
    {sync : Sync Action} (y : Yield) (halike : w.Alike w')
    (hacquire : w'.sync.acquire t l = .acquired sync) (hdue : due.seat? = some (t, l))
    (hbase : Extends Frame.isOrdinary base stack) :
    Begun w stack (some t) ({ w' with sync }.give (due :: base) y)
  | blocked {t : ThreadId} {l : LockId} {previous : Status} {due : Frame} {base : List Frame}
    {w' : World} (halike : w.Alike w') (hdue : due.seat? = some (t, l))
    (hbase : Extends Frame.isOrdinary base stack) :
    Begun w stack (some t)
      ⟨w', .attempt (.acquire t l), .blocking (.acquire t l) previous :: due :: base⟩
  | releasing {t : ThreadId} {l : LockId} {base : List Frame} {w' : World} (halike : w.Alike w')
    (hheld : w.sync.isHeld t l = true) (hbase : Extends Frame.isOrdinary base stack) :
    Begun w stack (some t) ⟨w', .releasing t l, base⟩

namespace Task.Begun

variable {task : Task} {w w' : World} {stack : List Frame} {actor : Option ThreadId}

theorem of_alike (h : task.Begun w' stack actor) (halike : w.Alike w') :
    task.Begun w stack actor := by
  cases h with
  | launched h => exact .launched (h.of_alike halike)
  | seated y h hacquire hdue hbase => exact .seated y (halike.trans h) hacquire hdue hbase
  | blocked h hdue hbase => exact .blocked (halike.trans h) hdue hbase
  | releasing h hheld hbase =>
      rw [halike.toSameLocks.isHeld] at hheld
      exact .releasing (halike.trans h) hheld hbase

theorem under {frame : Frame} (h : task.Begun w (frame :: stack) actor)
    (hframe : frame.isOrdinary) : task.Begun w stack actor := by
  cases h with
  | launched h => exact .launched (h.under hframe)
  | seated y h hacquire hdue hbase =>
      exact .seated y h hacquire hdue (hbase.under Frame.isOrdinary_shape hframe)
  | blocked h hdue hbase => exact .blocked h hdue (hbase.under Frame.isOrdinary_shape hframe)
  | releasing h hheld hbase =>
      exact .releasing h hheld (hbase.under Frame.isOrdinary_shape hframe)

end Task.Begun

namespace World

variable (w : World) (stack : List Frame) (t : ThreadId) (l : LockId)

theorem begun_startAcquire {due : Frame} (hdue : due.seat? = some (t, l)) :
    (w.startAcquire stack t l due).Begun w stack (some t) := by
  unfold startAcquire
  split
  · next sync hacquire => exact .seated _ (.refl w) hacquire hdue (.refl stack)
  · exact .blocked (alike_updateThread w t fun _ => rfl) hdue (.refl stack)
  · exact .launched (launched_giveFailure w stack _)

theorem begun_startLock : (w.startLock stack t l).Begun w stack (some t) :=
  begun_startAcquire w stack t l rfl

theorem begun_startRelock (holds : UInt32) :
    (w.startRelock stack t l holds).Begun w stack (some t) :=
  begun_startAcquire w stack t l rfl

theorem begun_startMutex : (w.startMutex stack t l).Begun w stack (some t) := by
  unfold startMutex
  split
  · exact .launched (launched_giveError w stack _)
  · exact begun_startLock w stack t l

theorem begun_startTryLock : (w.startTryLock stack t l).Begun w stack (some t) := by
  unfold startTryLock
  split
  · exact .launched (launched_give w stack _)
  · split
    · next sync hacquire => exact .seated _ (.refl w) hacquire rfl (.refl stack)
    · exact .launched (launched_give w stack _)
    · exact .launched (launched_give w stack _)

private theorem isHeld_of_checkOwned {s : Sync Action} {t : ThreadId} {l : LockId}
    (h : s.checkOwned t l = .ok ()) : s.isHeld t l = true := by
  unfold Sync.checkOwned at h
  split at h
  · assumption
  · split at h <;> cases h

theorem begun_startUnlock : (w.startUnlock stack t l).Begun w stack (some t) := by
  unfold startUnlock
  split
  · next hcheck => exact .releasing (.refl w) (isHeld_of_checkOwned hcheck) (.refl stack)
  · exact .launched (launched_giveError w stack _)

theorem begun_startMutexSleep (timeout : Timeout) :
    (w.startMutexSleep stack t l timeout).Begun w stack (some t) := by
  unfold startMutexSleep
  split
  · exact .launched (launched_giveError w stack _)
  · next hcheck =>
    exact .releasing (alike_updateThread w t fun _ => rfl) (isHeld_of_checkOwned hcheck)
      ((Extends.refl stack).push rfl)

theorem begun_startGuarded (body : Body) (guard : GuardKind) :
    (w.startGuarded stack t l body guard).Begun w stack (some t) :=
  (begun_startMutex w _ t l).under rfl

theorem begun_guardOver (guard : GuardKind) (outcome : Outcome) :
    (w.guardOver stack t l guard outcome).Begun w stack (some t) := by
  unfold guardOver
  split
  · exact (begun_startUnlock w _ t l).under rfl
  · exact (begun_startUnlock w _ t l).under rfl
  · split
    · next hheld => exact .releasing (.refl w) hheld ((Extends.refl stack).push rfl)
    · exact .launched (.flat (.refl w) rfl rfl)

end World

def CallOp.locker? : CallOp Body Step → Option String
  | .lock t _ | .lockInternal t _ | .lockEven t _ _ | .mutexSleep t _ _ | .synchronize t _ _
  | .guarded t _ _ _ | .rawLock t _ | .wait t _ _ _ => some t
  | _ => none

theorem Awaited.alike_mention (what : Awaited) (w : World) : w.Alike (what.mention w) := by
  cases what with
  | conditionWaiters name n => exact World.alike_conditionNamed w name
  | queueWaiting name n | queueSize name n => exact .of_sync_eq (World.sync_queueNamed w name)
  | lockWaiting name n | unlocked name | locked name => exact World.alike_lockNamed w name
  | sleeping name | dead name => exact World.alike_threadNamed w name
  | boundedWaiting name n | boundedSize name n | safepoints n => exact .refl w

private theorem World.launched_callBounded (w : World) (stack : List Frame) (s : String)
    {f : Nat → Task} (hf : ∀ q, (f q).Launched w stack) :
    (w.callBounded stack s f).Launched w stack := by
  unfold callBounded
  split
  · exact hf _
  · exact launched_giveFailure w stack _

private theorem World.launched_startBlocking_named (w w' : World) (stack : List Frame)
    (name : String) {how : Showing} {wait : Wait} (hwait : wait.isOrdinary)
    (hsync : w'.sync = (w.threadNamed name).2.sync) :
    (w'.startBlocking (.showing how :: stack) wait).Launched w stack :=
  ((launched_startBlocking w' _ hwait).under rfl).of_alike
    ((alike_threadNamed w name).trans (.of_sync_eq hsync))

/-- How a step that may wait or run callbacks begins; one that works on the bare lock apart. -/
theorem CallOp.begun_start (op : CallOp Body Step) (held : List ObjectRef) (w : World)
    (stack : List Frame) (hbare : ∀ t m, op ≠ .rawLock t m) :
    (op.start held w stack).Begun w stack (op.locker?.map fun t => (w.threadNamed t).1) := by
  have hpair := World.alike_threadAndLock w
  cases op with
  | rawLock t m => exact absurd rfl (hbare t m)
  | lock t m =>
      exact ((World.begun_startMutex _ _ _ _).under rfl).of_alike (hpair t m)
  | lockInternal t m =>
      exact ((World.begun_startLock _ _ _ _).under rfl).of_alike (hpair t m)
  | lockEven t m holds =>
      exact ((World.begun_startRelock _ _ _ _ holds).under rfl).of_alike (hpair t m)
  | mutexSleep t m timeout =>
      exact ((World.begun_startMutexSleep _ _ _ _ timeout).under rfl).of_alike (hpair t m)
  | synchronize t m body =>
      exact ((World.begun_startGuarded _ _ _ _ body _).under rfl).of_alike (hpair t m)
  | guarded t m body unlock =>
      exact ((World.begun_startGuarded _ _ _ _ body _).under rfl).of_alike (hpair t m)
  | wait t m cv timeout =>
      have hall := (hpair t m).trans (World.alike_conditionNamed _ cv)
      exact .launched (((World.launched_startWait _ _ _ _ _ timeout).under rfl).of_alike hall)
  | poll name =>
      exact .launched (((World.launched_startPoll _ _ _).under rfl).of_alike
        (World.alike_threadNamed w name))
  | sleep name timeout =>
      exact .launched (((World.launched_startSleep _ _ _ timeout).under rfl).of_alike
        (World.alike_threadNamed w name))
  | runUntil name script plain =>
      exact .launched (World.launched_startBlocking_named w _ stack name rfl rfl)
  | spawn name threadName body => exact .launched (World.launched_give w stack _)
  | join name => exact .launched (World.launched_give w stack _)
  | await what => exact .launched (.flat (what.alike_mention w) rfl rfl)
  | take t q =>
      exact .launched (World.launched_startBlocking_named w _ stack t rfl
        (World.sync_queueNamed _ q))
  | pollTimeout t q timeout =>
      exact .launched (World.launched_startBlocking_named w _ stack t rfl
        (World.sync_queueNamed _ q))
  | pop t q =>
      exact .launched (World.launched_startBlocking_named w _ stack t rfl
        (World.sync_queueNamed _ q))
  | popTimeout t q timeout =>
      exact .launched (World.launched_startBlocking_named w _ stack t rfl
        (World.sync_queueNamed _ q))
  | boundedPut t s v =>
      refine .launched (World.launched_callBounded w stack s fun q => ?_)
      exact World.launched_startBlocking_named w _ stack t rfl (World.sync_evaluate _ v)
  | boundedTake t s =>
      refine .launched (World.launched_callBounded w stack s fun q => ?_)
      exact World.launched_startBlocking_named w _ stack t rfl rfl
  | boundedPollTimeout t s timeout =>
      refine .launched (World.launched_callBounded w stack s fun q => ?_)
      exact World.launched_startBlocking_named w _ stack t rfl rfl
  | boundedPush t s v =>
      refine .launched (World.launched_callBounded w stack s fun q => ?_)
      exact World.launched_startBlocking_named w _ stack t rfl (World.sync_evaluate _ v)
  | boundedPop t s =>
      refine .launched (World.launched_callBounded w stack s fun q => ?_)
      exact World.launched_startBlocking_named w _ stack t rfl rfl
  | boundedPopTimeout t s timeout =>
      refine .launched (World.launched_callBounded w stack s fun q => ?_)
      exact World.launched_startBlocking_named w _ stack t rfl rfl
  | finalize run => exact .launched ((World.launched_startFinalizers w _ held run).under rfl)
  | each wm what block =>
      exact .launched ((World.launched_startEach w _ held wm what block).under rfl)
  | frame name frames steps forget =>
      refine .launched (((BodyRun.launched_proceed _ _ _ rfl).under rfl).of_alike ?_)
      exact (World.alike_threadNamed w name).trans (World.alike_updateThread _ _ fun _ => rfl)

def MutexOp.locker? : MutexOp → Option String
  | .unlock t _ | .unlockInternal t _ | .tryLock t _ | .rawTry t _ | .rawUnlock t _
  | .rawRelease t _ | .rawSetHold t _ _ => some t
  | _ => none

/-- The thread and the mutex of a step that works on the bare lock, or drops a hold without making
sure of it. -/
def MutexOp.bare? : MutexOp → Option (String × String)
  | .unlockInternal t m | .rawTry t m | .rawUnlock t m | .rawRelease t m | .rawSetHold t m _ =>
    some (t, m)
  | _ => none

theorem MutexOp.begun_start (op : MutexOp) (w : World) (stack : List Frame)
    (hbare : op.bare? = none) (hsignal : ∀ cv, op ≠ .signal cv)
    (hbroadcast : ∀ cv, op ≠ .broadcast cv) :
    (op.start w stack).Begun w stack (op.locker?.map fun t => (w.threadNamed t).1) := by
  have hpair := World.alike_threadAndLock w
  cases op with
  | unlockInternal t m | rawTry t m | rawUnlock t m | rawRelease t m | rawSetHold t m holds =>
      cases hbare
  | signal cv => exact absurd rfl (hsignal cv)
  | broadcast cv => exact absurd rfl (hbroadcast cv)
  | unlock t m => exact ((World.begun_startUnlock _ _ _ _).under rfl).of_alike (hpair t m)
  | tryLock t m => exact ((World.begun_startTryLock _ _ _ _).under rfl).of_alike (hpair t m)
  | checkOwned t m =>
      refine .launched (Task.Launched.of_alike ?_ (hpair t m))
      dsimp only [MutexOp.start]
      split
      · exact World.launched_give _ stack _
      · exact World.launched_giveError _ stack _
  | info t m => exact .launched ((World.launched_give _ stack _).of_alike (hpair t m))
  | debug m =>
      exact .launched ((World.launched_give _ stack _).of_alike (World.alike_lockNamed w m))
  | dump what => exact .launched (World.launched_giveError w stack _)
  | conditionInfo cv =>
      exact .launched ((World.launched_give _ stack _).of_alike (World.alike_conditionNamed w cv))

/-- What a step does to the locks, up to what is alike; it leaves all conditions as they are. -/
structure World.Moves (actor : Option ThreadId) (tampered : Option LockId) (w w' : World) :
    Prop where
  move : ∃ s, w.sync.Alike s ∧ Sync.LockMove actor tampered s w'.sync
  condition : ∀ c, w'.sync.condition c = w.sync.condition c

theorem World.Alike.moves {w w' : World} (h : w.Alike w') (actor : Option ThreadId)
    (tampered : Option LockId) : w.Moves actor tampered w' :=
  ⟨⟨w'.sync, h, .still (Sync.Alike.refl _).toSameLocks⟩, h.condition⟩

theorem MutexOp.moves_start {op : MutexOp} {t m : String} (w : World) (stack : List Frame)
    (hbare : op.bare? = some (t, m)) :
    w.Moves (some (w.threadNamed t).1) (some (w.threadAndLock t m).2.1) (op.start w stack).world ∧
      (∀ k, (w.threadAndLock t m).2.1 ≠ k →
        ((op.start w stack).world.sync.lock k).owner = (w.sync.lock k).owner) ∧
      (∃ outcome, (op.start w stack).control = .give outcome) ∧
      (op.start w stack).stack = stack := by
  have hpair := World.alike_threadAndLock w t m
  have hother : ∀ {f : Lock → Lock} {k : LockId}, (w.threadAndLock t m).2.1 ≠ k →
      (((w.threadAndLock t m).2.2.sync.updateLock (w.threadAndLock t m).2.1 f).lock k).owner =
        (w.sync.lock k).owner := by
    intro f k hk
    rw [Sync.lock_updateLock, if_neg hk]
    exact hpair.owner k
  cases op <;> cases hbare
  case unlockInternal =>
    dsimp only [MutexOp.start, World.release]
    split
    · next sync hunlock =>
      refine ⟨⟨⟨_, hpair, .unlock hunlock⟩, fun c => ?_⟩, fun k hk => ?_, ⟨_, rfl⟩, rfl⟩
      · exact (Sync.condition_of_unlockInternal hunlock c).trans (hpair.condition c)
      · obtain ⟨lock, -, rfl⟩ := Sync.unlockInternal_eq hunlock
        simp only [World.give]
        split <;> exact hother hk
    · exact ⟨hpair.moves _ _, fun k _ => hpair.owner k, ⟨_, rfl⟩, rfl⟩
  case rawTry =>
    dsimp only [MutexOp.start]
    split
    · next sync hacquire =>
      refine ⟨⟨⟨_, hpair, .acquire hacquire⟩, fun c => ?_⟩, fun k hk => ?_, ⟨_, rfl⟩, rfl⟩
      · exact (Sync.condition_of_acquire hacquire c).trans (hpair.condition c)
      · obtain ⟨lock, -, rfl⟩ := Sync.acquire_eq hacquire
        exact hother hk
    · exact ⟨hpair.moves _ _, fun k _ => hpair.owner k, ⟨_, rfl⟩, rfl⟩
    · exact ⟨hpair.moves _ _, fun k _ => hpair.owner k, ⟨_, rfl⟩, rfl⟩
  case rawUnlock =>
    dsimp only [MutexOp.start]
    split
    · next lock hunlock =>
      exact ⟨⟨⟨_, hpair, .tamper (.unlocked hunlock)⟩, hpair.condition⟩, fun k hk => hother hk,
        ⟨_, rfl⟩, rfl⟩
    · exact ⟨hpair.moves _ _, fun k _ => hpair.owner k, ⟨_, rfl⟩, rfl⟩
  case rawRelease =>
    exact ⟨⟨⟨_, hpair, .tamper .released⟩, hpair.condition⟩, fun k hk => hother hk, ⟨_, rfl⟩, rfl⟩
  case rawSetHold holds =>
    exact ⟨⟨⟨_, hpair, .tamper (.counted holds)⟩, hpair.condition⟩, fun k hk => hother hk,
      ⟨_, rfl⟩, rfl⟩

def Frame.actor? : Frame → Option ThreadId
  | .acquiring t _ | .relocking t _ _ _ | .sleeping t _ | .guarding t _ _ => some t
  | _ => none

theorem shape_resumed (wait : Wait) (stack : List Frame) :
    (resumed wait stack).map Frame.shape = stack.map Frame.shape := by
  unfold resumed
  split
  · apply shape_updateRunning
    intro running
    rfl
  · rfl

/-- What a frame begins when it receives an outcome, unless it is taking a mutex. -/
theorem Frame.begun_receive (frame : Frame) (w : World) (stack : List Frame) (outcome : Outcome)
    (hseat : frame.seat? = none) (hquest : frame.quest? = none) :
    (frame.receive w stack outcome).Begun w stack frame.actor? := by
  have hgive : ∀ {actor : Option ThreadId} (outcome : Outcome),
      (⟨w, .give outcome, stack⟩ : Task).Begun w stack actor :=
    fun outcome => .launched (.flat (.refl w) rfl rfl)
  cases frame with
  | acquiring t l | relocking t l holds pending => cases hseat
  | session remaining answers | body run => exact hgive outcome
  | step running => exact .launched (.flat (.refl w) rfl rfl)
  | showing how => exact hgive _
  | blocking wait previous =>
      cases outcome with
      | ok y => exact .launched (.flat (World.alike_updateThread w _ fun _ => rfl) rfl rfl)
      | error failure => exact hgive _
  | polled wait =>
      have hwait : wait.isOrdinary := by
        cases wait <;> first | rfl | cases hquest
      rcases outcome with (e | _ | _ | _) | y
      · exact .launched ((World.launched_giveError w _ e).of_shape (shape_resumed wait stack))
      · exact hgive _
      · exact hgive _
      · exact hgive _
      · exact .launched ((World.launched_startBlocking w _ hwait).of_shape
          (shape_resumed wait stack))
  | polling t =>
      rcases outcome with (e | _ | _ | _) | y
      · refine .launched (.flat ?_ rfl rfl)
        have hcounted : ∀ w : World, w.Alike (w.updateSync fun s =>
            { s with safepoints := s.safepoints + 1 }) :=
          fun w => Sync.Alike.of_eq rfl rfl rfl
        refine World.Alike.trans ?_ (hcounted _)
        split
        · exact World.alike_updateThread w t (Signal.ownedLocks_deliver _)
        · exact .refl w
      · exact hgive _
      · exact hgive _
      · exact hgive _
      · exact .launched (World.launched_nextAction w stack t)
  | waitPolled wait holds =>
      rcases outcome with (e | _ | _ | _) | y
      · exact .launched (.flat (.refl w) rfl rfl)
      · exact hgive _
      · exact hgive _
      · exact hgive _
      · exact .launched (.flat (.refl w) rfl rfl)
  | waitOver result =>
      rcases result with e' | o <;> rcases outcome with (e | _ | _ | _) | y <;> exact hgive _
  | sleepOver result =>
      rcases result with e' | o <;> rcases outcome with (e | _ | _ | _) | y <;> exact hgive _
  | timing start =>
      cases outcome with
      | ok y => exact hgive _
      | error failure => exact hgive _
  | sleeping t l =>
      rcases outcome with (e | _ | _ | _) | y
      · exact (World.begun_startRelock w _ t l 1).under rfl
      · exact hgive _
      · exact hgive _
      · exact hgive _
      · cases y with
        | elapsed millis => exact (World.begun_startRelock w _ t l 1).under rfl
        | _ => exact hgive _
  | entering t l callback kind =>
      cases outcome with
      | ok y => exact .launched ((World.launched_startBody w _ _ (by simp)).under rfl)
      | error failure => exact hgive _
  | guarding t l kind => exact World.begun_guardOver w stack t l kind outcome
  | unlocking kept =>
      cases outcome with
      | ok y => exact hgive _
      | error failure => exact hgive _
  | lyingDown t l timeout =>
      cases outcome with
      | ok y => exact .launched ((World.launched_startSleep w _ t timeout).under rfl)
      | error failure => exact hgive _
  | finalizing calls ran =>
      rcases outcome with (e | _ | _ | _) | y
      · exact .launched (World.launched_nextFinalizer w stack calls ran)
      · exact hgive _
      · exact hgive _
      · exact hgive _
      · exact .launched (World.launched_nextFinalizer w stack calls ran)
  | iterating iteration =>
      cases outcome with
      | ok y => exact .launched (World.launched_nextItem w stack iteration)
      | error failure => exact .launched (.flat (.refl w) rfl (shape_reportEvent _ _))

end RubyRuntime.Session
