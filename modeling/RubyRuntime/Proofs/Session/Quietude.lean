import RubyRuntime.Proofs.Session.Advances
import RubyRuntime.Proofs.Session.Stillness

/-!
# Calls that begin and end quietly

Beginning a call, handing its outcome to the frame below, and going on with a wait or a body is
quiet but for one thread: the one that is put to sleep or comes back from its sleep, or that comes
to its end. `Executor.sleeper?` says which thread that is. The one exception is a poll that looks
for an action: it takes the action from its thread, and is quiet apart from that.
-/
namespace RubyRuntime.Session

namespace World

variable (w : World) (stack : List Frame) (t : ThreadId) (l : LockId)

theorem quiet_startBlocking (wait : Wait) :
    w.Quiet (some wait.thread) (w.startBlocking stack wait).world :=
  quiet_updateThread w _ ⟨rfl, rfl⟩ id (.inl rfl)

theorem quiet_cutStack (depth : Option Nat) : w.Quiet none (w.cutStack t depth) := by
  cases depth with
  | none => exact .refl w
  | some depth => exact quiet_updateThread w t ⟨rfl, rfl⟩ id (.inr rfl)

end World

namespace BodyRun

variable (run : BodyRun) (w : World) (stack : List Frame)

theorem quiet_conclude (strictFailure : Option Error) :
    w.Quiet run.kind.thread? (run.conclude strictFailure w stack).world := by
  unfold conclude
  dsimp only
  split
  · exact .of_none (.refl w)
  · next t hkind =>
    rw [hkind]
    exact .of_sync (.finishThread w.sync t)
  · exact .of_none (.refl w)
  · split <;> exact .of_none (w.quiet_cutStack _ _)

theorem quiet_proceed : w.Quiet run.kind.thread? (run.proceed w stack).world := by
  unfold proceed
  split
  · exact run.quiet_conclude w stack none
  · exact .of_none (.refl w)

theorem quiet_proceed_of_none (h : run.kind.thread? = none) :
    w.Quiet none (run.proceed w stack).world :=
  h ▸ run.quiet_proceed w stack

end BodyRun

namespace World

variable (w : World) (stack : List Frame) (t : ThreadId) (l : LockId)

theorem quiet_startBody {kind : BodyKind} (body : Body) (hkind : kind.thread? = none) :
    w.Quiet none (w.startBody stack kind body).world :=
  BodyRun.quiet_proceed_of_none _ w stack hkind

theorem quiet_recordAnd (outcome : Outcome) :
    w.Quiet none (w.recordAnd stack t l outcome).world := by
  unfold recordAnd
  split
  · next sync hrecord => exact .of_sync (.of_record? hrecord)
  · exact .refl w

theorem quiet_startAcquire (due : Frame) :
    w.Quiet (some t) (w.startAcquire stack t l due).world := by
  unfold startAcquire
  split
  · next sync hacquire => exact .of_none (.of_sync (.of_acquire hacquire))
  · exact w.quiet_startBlocking _ (.acquire t l)
  · exact .of_none (.refl w)

theorem quiet_startMutex : w.Quiet (some t) (w.startMutex stack t l).world := by
  unfold startMutex
  split
  · exact .of_none (.refl w)
  · exact w.quiet_startAcquire stack t l _

theorem quiet_startTryLock : w.Quiet none (w.startTryLock stack t l).world := by
  unfold startTryLock
  split
  · exact .refl w
  · split
    · next sync hacquire => exact .of_sync (.of_acquire hacquire)
    · exact .refl w
    · exact .refl w

theorem quiet_startUnlock : w.Quiet none (w.startUnlock stack t l).world := by
  unfold startUnlock
  split <;> exact .refl w

theorem quiet_release : w.Quiet none (w.release stack t l).world := by
  unfold release
  split
  · next sync hunlock => exact .of_sync (.of_unlockInternal hunlock)
  · exact .refl w

theorem quiet_updateLock (f : Lock → Lock) : w.Quiet none (w.updateSync (·.updateLock l f)) :=
  .of_sync (.of_thread fun _ => rfl)

theorem quiet_relocked (holds : UInt32) (pending : Option Error) :
    w.Quiet none (w.relocked stack t l holds pending).world :=
  (w.quiet_updateLock l _).trans (quiet_recordAnd _ stack t l _)

theorem quiet_startMutexSleep (timeout : Timeout) :
    w.Quiet none (w.startMutexSleep stack t l timeout).world := by
  unfold startMutexSleep
  split
  · exact .refl w
  · exact quiet_updateThread w t ⟨rfl, rfl⟩ id (.inr rfl)

theorem quiet_startWait (c : ConditionId) (timeout : Timeout) :
    w.Quiet none (w.startWait stack t l c timeout).world := by
  unfold startWait
  split
  · exact .refl w
  · exact quiet_updateThread w t ⟨rfl, rfl⟩ id (.inr rfl)

theorem quiet_guardOver (guard : GuardKind) (outcome : Outcome) :
    w.Quiet none (w.guardOver stack t l guard outcome).world := by
  unfold guardOver
  split
  · exact w.quiet_startUnlock _ t l
  · exact w.quiet_startUnlock _ t l
  · split <;> exact .refl w

theorem quiet_nextFinalizer (calls : List (Nat × Finalizer)) (ran : Nat) :
    w.Quiet none (w.nextFinalizer stack calls ran).world := by
  unfold nextFinalizer
  split
  · exact .refl w
  · exact w.quiet_startBody _ _ rfl

theorem quiet_startFinalizers (held : List ObjectRef) (run : FinalizerRun) :
    w.Quiet none (w.startFinalizers held stack run).world := by
  unfold startFinalizers
  refine .trans (.of_eq ?_) (quiet_nextFinalizer _ _ _ _)
  exact ⟨rfl, rfl, rfl⟩

theorem quiet_nextItem (iteration : Iteration) :
    w.Quiet none (w.nextItem stack iteration).world := by
  unfold nextItem
  split
  · exact .refl w
  · exact BodyRun.quiet_proceed_of_none _ w _ rfl

theorem quiet_startEach (held : List ObjectRef) (wm : String) (what : Yielded)
    (block : Option (Block Step)) :
    w.Quiet none (w.startEach held stack wm what block).world := by
  have hpairs : w.Quiet none ((w.weakMapNamed wm).2.weakPairs held (w.weakMapNamed wm).1).2 :=
    .of_eq (by simp [weakPairs])
  refine hpairs.trans ?_
  cases block with
  | some block => exact quiet_nextItem _ _ _
  | none => cases what <;> dsimp only [startEach] <;> split <;> exact .refl _

theorem quiet_callBounded (s : String) {but : Option ThreadId} {f : Nat → Task}
    (hf : ∀ q, w.Quiet but (f q).world) : w.Quiet but (w.callBounded stack s f).world := by
  unfold callBounded
  split
  · exact hf _
  · exact .of_none (.refl w)

theorem quiet_evaluate (spec : ValueSpec) : w.Quiet none (w.evaluate spec).2 :=
  .of_eq (by simp)

def popped (w : World) (t : ThreadId) : World :=
  w.updateThread t fun _ => (w.thread t).popAction.2

theorem quiet_nextAction : (w.popped t).Quiet none (w.nextAction stack t).world := by
  unfold nextAction popped
  dsimp only
  split
  · exact .of_sync (.of_thread fun _ => rfl)
  · exact quiet_startBody _ _ _ rfl
  · exact .refl _
  · exact .refl _

theorem sameQueues_nextAction : w.SameQueues (w.nextAction stack t).world := by
  have hpopped : w.SameQueues (w.popped t) := ⟨fun _ => rfl, fun _ => rfl⟩
  exact hpopped.trans (w.quiet_nextAction stack t).toSameQueues

theorem sameStatus_nextAction : w.SameStatus none (w.nextAction stack t).world :=
  (w.sameStatus_updateThread t (.inr rfl)).trans (w.quiet_nextAction stack t).sameStatus

theorem startPoll_of_not_pending (h : (w.thread t).pending = false) :
    w.startPoll stack t = w.give stack .unit := by
  simp [startPoll, h]

end World

theorem Awaited.quiet_mention (what : Awaited) (w : World) : w.Quiet none (what.mention w) := by
  cases what with
  | conditionWaiters name n => exact w.quiet_conditionNamed name
  | queueWaiting name n | queueSize name n => exact w.quiet_queueNamed name
  | lockWaiting name n | unlocked name | locked name => exact w.quiet_lockNamed name
  | sleeping name | dead name => exact w.quiet_threadNamed name
  | boundedWaiting name n | boundedSize name n | safepoints n => exact .refl w

theorem MutexOp.quiet_start (op : MutexOp) (w : World) (stack : List Frame) :
    w.Quiet none (op.start w stack).world := by
  have hpair := w.quiet_threadAndLock
  cases op with
  | unlock t m => exact (hpair t m).trans (World.quiet_startUnlock _ _ _ _)
  | checkOwned t m =>
      refine (hpair t m).trans ?_
      dsimp only [MutexOp.start]
      split <;> exact .refl _
  | unlockInternal t m => exact (hpair t m).trans (World.quiet_release _ _ _ _)
  | tryLock t m => exact (hpair t m).trans (World.quiet_startTryLock _ _ _ _)
  | info t m => exact hpair t m
  | debug m => exact w.quiet_lockNamed m
  | dump what => exact .refl w
  | rawTry t m =>
      refine (hpair t m).trans ?_
      dsimp only [MutexOp.start]
      split
      · next sync hacquire => exact .of_sync (.of_acquire hacquire)
      · exact .refl _
      · exact .refl _
  | rawUnlock t m =>
      refine (hpair t m).trans ?_
      dsimp only [MutexOp.start]
      split
      · exact World.quiet_updateLock _ _ _
      · exact .refl _
  | rawRelease t m | rawSetHold t m holds => exact (hpair t m).trans (World.quiet_updateLock _ _ _)
  | signal cv | broadcast cv =>
      exact (w.quiet_conditionNamed cv).trans (.of_sync (.of_thread fun _ => rfl))
  | conditionInfo cv => exact w.quiet_conditionNamed cv

def CallOp.sleeper? : CallOp Body Step → Option String
  | .sleep t _ | .runUntil t _ _ | .lock t _ | .lockInternal t _ | .lockEven t _ _
  | .synchronize t _ _ | .guarded t _ _ _ | .take t _ | .pollTimeout t _ _ | .pop t _
  | .popTimeout t _ _ | .boundedPut t _ _ | .boundedTake t _ | .boundedPollTimeout t _ _
  | .boundedPush t _ _ | .boundedPop t _ | .boundedPopTimeout t _ _ => some t
  | _ => none

theorem CallOp.quiet_start (op : CallOp Body Step) (held : List ObjectRef) (w : World)
    (stack : List Frame) (hpoll : ∀ name, op ≠ .poll name) :
    w.Quiet (op.sleeper?.map fun name => (w.threadNamed name).1)
      (op.start held w stack).world := by
  have hthread : ∀ name, w.Quiet none (w.threadNamed name).2 := w.quiet_threadNamed
  have hsleeper : ∀ name, w.Quiet (some (w.threadNamed name).1) (w.threadNamed name).2 :=
    fun name => (hthread name).of_none
  have hpair : ∀ t m, w.Quiet (some (w.threadNamed t).1) (w.threadAndLock t m).2.2 :=
    fun t m => (w.quiet_threadAndLock t m).of_none
  have hput : ∀ t v, w.Quiet (some (w.threadNamed t).1) ((w.threadNamed t).2.evaluate v).2 :=
    fun t v => ((hthread t).trans (World.quiet_evaluate _ v)).of_none
  cases op with
  | poll name => exact absurd rfl (hpoll name)
  | sleep name timeout =>
      exact (hsleeper name).trans (World.quiet_startBlocking _ _ (.park _ _ _))
  | runUntil name script plain =>
      exact (hsleeper name).trans (World.quiet_startBlocking _ _ (.scripted _ _ _))
  | spawn | join => exact .refl w
  | await what => exact what.quiet_mention w
  | lock t m => exact (hpair t m).trans (World.quiet_startMutex _ _ _ _)
  | lockInternal t m => exact (hpair t m).trans (World.quiet_startAcquire _ _ _ _ _)
  | lockEven t m holds => exact (hpair t m).trans (World.quiet_startAcquire _ _ _ _ _)
  | mutexSleep t m timeout =>
      exact (w.quiet_threadAndLock t m).trans (World.quiet_startMutexSleep _ _ _ _ _)
  | synchronize t m body => exact (hpair t m).trans (World.quiet_startMutex _ _ _ _)
  | guarded t m body unlock => exact (hpair t m).trans (World.quiet_startMutex _ _ _ _)
  | rawLock t m => exact w.quiet_threadAndLock t m
  | wait t m cv timeout =>
      exact ((w.quiet_threadAndLock t m).trans (World.quiet_conditionNamed _ cv)).trans
        (World.quiet_startWait _ _ _ _ _ _)
  | take t q | pollTimeout t q timeout | pop t q | popTimeout t q timeout =>
      exact ((hthread t).trans (World.quiet_queueNamed _ q)).of_none.trans
        (World.quiet_startBlocking _ _ (.take _ _ _))
  | boundedPut t s v | boundedPush t s v =>
      exact w.quiet_callBounded stack s fun q =>
        (hput t v).trans (World.quiet_startBlocking _ _ (.put _ _ _))
  | boundedTake t s | boundedPollTimeout t s timeout | boundedPop t s
  | boundedPopTimeout t s timeout =>
      exact w.quiet_callBounded stack s fun q =>
        (hsleeper t).trans (World.quiet_startBlocking _ _ (.boundedTake _ _ _))
  | finalize run => exact w.quiet_startFinalizers _ held run
  | each wm what block => exact w.quiet_startEach _ held wm what block
  | frame name frames steps forget =>
      exact ((hthread name).trans (World.quiet_updateThread _ _ ⟨rfl, rfl⟩ id (.inr rfl))).trans
        (BodyRun.quiet_proceed_of_none _ _ _ rfl)

def Frame.sleeper? : Frame → Option ThreadId
  | .blocking wait _ | .polled wait => some wait.thread
  | .relocking t _ _ _ | .sleeping t _ | .lyingDown t _ _ => some t
  | _ => none

/-- The thread of which a frame runs the next action when it receives an outcome. -/
def Frame.goesOn? : Frame → Outcome → Option ThreadId
  | .polling t, .ok _ => some t
  | _, _ => none

theorem Frame.quiet_receive (frame : Frame) (w : World) (stack : List Frame) (outcome : Outcome)
    (h : frame.goesOn? outcome = none) :
    w.Quiet frame.sleeper? (frame.receive w stack outcome).world := by
  have hsame : ∀ {but : Option ThreadId}, w.Quiet but w := .of_none (.refl w)
  cases frame with
  | session | body | step | showing => exact hsame
  | blocking wait previous =>
      cases outcome with
      | ok y => exact w.quiet_updateThread _ ⟨rfl, rfl⟩ id (.inl rfl)
      | error failure => exact hsame
  | polled wait =>
      rcases outcome with (e | _ | _ | _) | y
      case ok => exact w.quiet_startBlocking _ _
      all_goals exact hsame
  | polling t =>
      rcases outcome with (e | _ | _ | _) | y
      case ok => cases h
      case error.error =>
        have hcounted : ∀ w : World, w.Quiet none (w.updateSync fun s =>
            { s with safepoints := s.safepoints + 1 }) :=
          fun w => .of_sync (.of_thread fun _ => rfl)
        refine .trans ?_ (hcounted _)
        split
        · exact w.quiet_updateThread t (Signal.actions_deliver rfl _)
            (Signal.keeps_interrupted _ _) (.inr (Signal.status_deliver _ _))
        · exact hsame
      all_goals exact hsame
  | acquiring t l =>
      cases outcome with
      | ok y => exact w.quiet_recordAnd stack t l _
      | error failure => exact hsame
  | relocking t l holds pending =>
      rcases outcome with (e | _ | _ | _) | y
      case ok => exact (w.quiet_relocked stack t l holds pending).of_none
      case error.error => exact w.quiet_startBlocking _ (.acquire t l)
      all_goals exact hsame
  | waitPolled | finalizing =>
      rcases outcome with (e | _ | _ | _) | y
      all_goals first | exact hsame | exact w.quiet_nextFinalizer stack _ _
  | waitOver result | sleepOver result =>
      rcases result with e' | o <;> rcases outcome with (e | _ | _ | _) | y <;> exact hsame
  | timing | unlocking => cases outcome <;> exact hsame
  | sleeping t l =>
      rcases outcome with (e | _ | _ | _) | y
      case error.error => exact w.quiet_startAcquire _ t l _
      case ok =>
        cases y with
        | elapsed millis => exact w.quiet_startAcquire _ t l _
        | _ => exact hsame
      all_goals exact hsame
  | entering t l callback kind =>
      cases outcome with
      | ok y => exact w.quiet_startBody _ _ rfl
      | error failure => exact hsame
  | guarding t l kind => exact w.quiet_guardOver stack t l kind outcome
  | lyingDown t l timeout =>
      cases outcome with
      | ok y => exact w.quiet_startBlocking _ (.park t _ _)
      | error failure => exact hsame
  | iterating iteration =>
      cases outcome with
      | ok y => exact w.quiet_nextItem stack iteration
      | error failure => exact hsame

/-- The thread whose blocking call the next step of an executor begins or ends, or which it brings
to its end. -/
def Executor.sleeper? (w : World) (e : Executor) : Option ThreadId :=
  match e.control, e.stack with
  | .perform (.thread .detach), _ => e.current
  | .perform (.call op), _ => op.sleeper?.map fun name => (w.threadNamed name).1
  | .interrupted wait, _ => some wait.thread
  | .condition wait (.relocking _ _) _, _ => some wait.thread
  | .give _, frame :: _ => frame.sleeper?
  | .answer _ _, .body run :: _ => run.kind.thread?
  | _, _ => none

variable {e : Executor}

theorem quiet_receiveAnswer (watched : List Watched) (held : List ObjectRef) (w : World)
    {report : Report} {failure : Option Error} (hcontrol : e.control = .answer report failure) :
    w.Quiet (e.sleeper? w) (receiveAnswer watched held w e.stack report failure).world := by
  unfold receiveAnswer
  split
  · next run stack hstack =>
    let next : BodyRun := { run with answers := report :: run.answers }
    simp only [Executor.sleeper?, hcontrol, hstack]
    cases failure with
    | some error => exact next.quiet_conclude w stack _
    | none => exact next.quiet_proceed w stack
  · refine ((w.quiet_snapshots held watched).trans ?_).of_none
    dsimp only [nextStep]
    split <;> exact .refl _
  · exact .of_none (.refl w)

theorem quiet_continueWait (me : Nat) {wait : ConditionWait} {phase : WaitPhase}
    {wakeAt : Option Nat} (w : World) (hcontrol : e.control = .condition wait phase wakeAt)
    (hphase : ∀ holds, phase ≠ .polling holds ∧ phase ≠ .awake holds) :
    w.Quiet (e.sleeper? w) (continueWait me wait phase w e.stack).world := by
  have hstep : w.Quiet none { w with sync := (wait.step w.clock me phase w.sync).2 } := by
    rcases Sync.Quiet.of_steps (wait.steps w.clock me phase w.sync) with hquiet | ⟨holds, h, -⟩
    · exact .of_sync hquiet
    · exact absurd h (hphase holds).2
  simp only [Executor.sleeper?, hcontrol]
  cases phase with
  | polling holds => exact absurd rfl (hphase holds).1
  | relocking holds result => exact w.quiet_startAcquire _ _ _ _
  | _ => exact hstep

end RubyRuntime.Session
