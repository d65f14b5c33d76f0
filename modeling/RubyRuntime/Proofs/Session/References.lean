import RubyRuntime.Proofs.Session.Advances

/-!
# References of running calls

A running call refers to objects by the items that it puts into queues, by the contents of the
bounded queue that it is parked at, by an item that it has taken, and by the items of an iteration.
What a call does next refers to nothing but what it was given. Most calls also leave alone what
else the lives of objects depend on, apart from queues: `World.store`.
-/
namespace RubyRuntime

/-- Objects, known by their serial numbers, and bounded queues that may be referred to. -/
structure Reach where
  objects : Nat → Prop
  queues : Nat → Prop

def Value.Within (reach : Reach) : Value → Prop
  | object o => reach.objects o.serial
  | _ => True

namespace Session

/-- What the lives of objects and their finalizers depend on, apart from running calls and the items
of queues. -/
structure Store where
  heap : Heap
  spaces : List (ObjectSpace Finalizer)
  weakKeyMaps : List WeakKeyMap
  objects : List (String × ObjectRef)
  bounded : List (String × Nat)
  spaceNames : List (String × Nat)

def World.store (w : World) : Store :=
  ⟨w.heap, w.spaces, w.weakKeyMaps, w.names.objects, w.names.bounded, w.names.spaces⟩

def Wait.Within (reach : Reach) : Wait → Prop
  | put _ q item => reach.queues q ∧ item.Within reach
  | boundedTake _ q _ => reach.queues q
  | _ => True

def Outcome.Within (reach : Reach) : Outcome → Prop
  | .ok (.taken (some (.item v))) => v.Within reach
  | _ => True

def Control.Within (reach : Reach) : Control → Prop
  | attempt wait | parked wait _ _ | interrupted wait => wait.Within reach
  | give outcome => Outcome.Within reach outcome
  | _ => True

def Frame.Within (reach : Reach) : Frame → Prop
  | blocking wait _ | polled wait => wait.Within reach
  | unlocking outcome => Outcome.Within reach outcome
  | iterating iteration => ∀ item ∈ iteration.current :: iteration.items, ∀ v ∈ item, v.Within reach
  | _ => True

def StackWithin (reach : Reach) (stack : List Frame) : Prop :=
  ∀ frame ∈ stack, frame.Within reach

/-- A task leaves the store alone and refers to nothing but what may be referred to. -/
structure Task.Stays (reach : Reach) (w : World) (task : Task) : Prop where
  store : task.world.store = w.store
  control : task.control.Within reach
  stack : StackWithin reach task.stack

section Stacks

variable {reach : Reach} {frame : Frame} {stack stack' : List Frame}

theorem StackWithin.cons (hframe : frame.Within reach) (hstack : StackWithin reach stack) :
    StackWithin reach (frame :: stack) :=
  List.forall_mem_cons.mpr ⟨hframe, hstack⟩

theorem StackWithin.of_shape (h : StackWithin reach stack)
    (hshape : stack'.map Frame.shape = stack.map Frame.shape) : StackWithin reach stack' := by
  have hwithin : ∀ frame : Frame, frame.shape.Within reach ↔ frame.Within reach := by
    intro frame
    cases frame <;> rfl
  have hall : ∀ stack : List Frame,
      StackWithin reach stack ↔ ∀ shape ∈ stack.map Frame.shape, shape.Within reach := by
    intro stack
    simp only [List.forall_mem_map, hwithin]
    rfl
  rw [hall, hshape, ← hall]
  exact h

theorem StackWithin.reportEvent (h : StackWithin reach stack) (event : Report) :
    StackWithin reach (reportEvent event stack) :=
  h.of_shape (shape_reportEvent event stack)

theorem Ending.within_outcome (reach : Reach) (ending : Ending) (failure : Option Error) :
    Outcome.Within reach (ending.outcome failure) := by
  unfold Ending.outcome
  split <;> trivial

end Stacks

namespace World

variable (w : World)

@[simp] theorem store_threadNamed (name : String) : (w.threadNamed name).2.store = w.store := by
  unfold threadNamed
  split <;> rfl

@[simp] theorem store_lockNamed (name : String) : (w.lockNamed name).2.store = w.store := by
  unfold lockNamed
  split <;> rfl

@[simp] theorem store_conditionNamed (name : String) :
    (w.conditionNamed name).2.store = w.store := by
  unfold conditionNamed
  split <;> rfl

@[simp] theorem store_queueNamed (name : String) : (w.queueNamed name).2.store = w.store := by
  unfold queueNamed
  split <;> rfl

@[simp] theorem store_weakMapNamed (name : String) : (w.weakMapNamed name).2.store = w.store := by
  unfold weakMapNamed
  split <;> rfl

@[simp] theorem store_newThread (name : String) (threadName : Option String) :
    (w.newThread name threadName).2.store = w.store :=
  rfl

@[simp] theorem store_threadAndLock (t m : String) :
    (w.threadAndLock t m).2.2.store = w.store := by
  simp [threadAndLock]

@[simp] theorem store_threadsNamed (names : List String) :
    (w.threadsNamed names).2.store = w.store :=
  threadsNamed_keeps (P := fun w' => w'.store = w.store)
    (fun w' name h => (w'.store_threadNamed name).trans h) names rfl

@[simp] theorem store_updateSync (f : Sync Action → Sync Action) :
    (w.updateSync f).store = w.store :=
  rfl

@[simp] theorem store_updateThread (t : ThreadId)
    (f : ThreadRecord Action → ThreadRecord Action) : (w.updateThread t f).store = w.store :=
  rfl

@[simp] theorem store_setQueue (q : Nat) (queue : UnboundedQueue Value) :
    (w.setQueue q queue).store = w.store :=
  rfl

@[simp] theorem store_setBounded (q : Nat) (queue : BoundedQueue Value) :
    (w.setBounded q queue).store = w.store :=
  rfl

@[simp] theorem store_setWeakMap (i : Nat) (map : WeakMap) : (w.setWeakMap i map).store = w.store :=
  rfl

@[simp] theorem store_cutStack (t : ThreadId) (depth : Option Nat) :
    (w.cutStack t depth).store = w.store := by
  cases depth <;> rfl

@[simp] theorem store_drawTicket : w.drawTicket.2.store = w.store :=
  rfl

end World

section Calls

variable {reach : Reach} {w : World} {stack : List Frame} (t : ThreadId) (l : LockId)

theorem Task.Stays.give (hstack : StackWithin reach stack) {y : Yield}
    (hy : Outcome.Within reach (.ok y)) : (w.give stack y).Stays reach w :=
  ⟨rfl, hy, hstack⟩

theorem Task.Stays.giveFailure (hstack : StackWithin reach stack) (failure : Failure) :
    (w.giveFailure stack failure).Stays reach w :=
  ⟨rfl, trivial, hstack⟩

theorem Task.Stays.of_store {task : Task} {w' : World} (h : task.Stays reach w')
    (hstore : w'.store = w.store) : task.Stays reach w :=
  ⟨h.store.trans hstore, h.control, h.stack⟩

theorem BodyRun.stays_conclude (run : BodyRun) (hstack : StackWithin reach stack)
    (failure : Option Error) : (run.conclude failure w stack).Stays reach w := by
  have houtcome := run.ending.within_outcome reach failure
  unfold conclude
  dsimp only
  split
  · exact ⟨rfl, houtcome, hstack.reportEvent _⟩
  · exact ⟨rfl, trivial, List.forall_mem_nil _⟩
  · refine ⟨rfl, houtcome, ?_⟩
    dsimp only
    split
    · exact hstack.reportEvent _
    · exact hstack
  · split
    · exact ⟨w.store_cutStack _ _, trivial, hstack⟩
    · exact ⟨w.store_cutStack _ _, trivial, hstack⟩

theorem BodyRun.stays_proceed (run : BodyRun) (hstack : StackWithin reach stack) :
    (run.proceed w stack).Stays reach w := by
  unfold proceed
  split
  · exact run.stays_conclude hstack none
  · exact ⟨rfl, trivial, .cons trivial (.cons trivial hstack)⟩

namespace World

theorem stays_startBlocking (hstack : StackWithin reach stack) {wait : Wait}
    (hwait : wait.Within reach) : (w.startBlocking stack wait).Stays reach w :=
  ⟨rfl, hwait, .cons hwait hstack⟩

theorem stays_startBody (hstack : StackWithin reach stack) (kind : BodyKind) (body : Body) :
    (w.startBody stack kind body).Stays reach w :=
  BodyRun.stays_proceed _ hstack

theorem stays_nextAction (hstack : StackWithin reach stack) :
    (w.nextAction stack t).Stays reach w := by
  have hframe : StackWithin reach (.polling t :: stack) := .cons trivial hstack
  unfold nextAction
  dsimp only
  split
  · exact ⟨rfl, trivial, hstack⟩
  · exact (stays_startBody hframe _ _).of_store rfl
  · exact ⟨rfl, trivial, hframe⟩
  · exact ⟨rfl, trivial, hframe⟩

theorem stays_startPoll (hstack : StackWithin reach stack) :
    (w.startPoll stack t).Stays reach w := by
  unfold startPoll
  split
  · exact stays_nextAction t hstack
  · exact .give hstack trivial

theorem stays_recordAnd (hstack : StackWithin reach stack) {outcome : Outcome}
    (houtcome : Outcome.Within reach outcome) : (w.recordAnd stack t l outcome).Stays reach w := by
  unfold recordAnd
  split
  · exact ⟨rfl, houtcome, hstack⟩
  · exact .giveFailure hstack _

theorem stays_startAcquire (hstack : StackWithin reach stack) {due : Frame}
    (hdue : due.Within reach) : (w.startAcquire stack t l due).Stays reach w := by
  unfold startAcquire
  split
  · exact ⟨rfl, trivial, .cons hdue hstack⟩
  · exact stays_startBlocking (.cons hdue hstack) trivial
  · exact .giveFailure hstack _

theorem stays_startMutex (hstack : StackWithin reach stack) :
    (w.startMutex stack t l).Stays reach w := by
  unfold startMutex
  split
  · exact .giveFailure hstack _
  · exact stays_startAcquire t l hstack trivial

theorem stays_startTryLock (hstack : StackWithin reach stack) :
    (w.startTryLock stack t l).Stays reach w := by
  unfold startTryLock
  split
  · exact .give hstack trivial
  · split
    · exact ⟨rfl, trivial, .cons trivial hstack⟩
    · exact .give hstack trivial
    · exact .give hstack trivial

theorem stays_startUnlock (hstack : StackWithin reach stack) :
    (w.startUnlock stack t l).Stays reach w := by
  unfold startUnlock
  split
  · exact ⟨rfl, trivial, hstack⟩
  · exact .giveFailure hstack _

theorem stays_release (hstack : StackWithin reach stack) :
    (w.release stack t l).Stays reach w := by
  unfold release
  split
  · exact ⟨rfl, trivial, hstack⟩
  · exact .giveFailure hstack _

theorem stays_relocked (hstack : StackWithin reach stack) (holds : UInt32)
    (pending : Option Error) : (w.relocked stack t l holds pending).Stays reach w := by
  refine (stays_recordAnd t l hstack ?_).of_store rfl
  cases pending <;> trivial

theorem stays_startMutexSleep (hstack : StackWithin reach stack) (timeout : Timeout) :
    (w.startMutexSleep stack t l timeout).Stays reach w := by
  unfold startMutexSleep
  split
  · exact .giveFailure hstack _
  · exact ⟨rfl, trivial, .cons trivial hstack⟩

theorem stays_startWait (hstack : StackWithin reach stack) (c : ConditionId) (timeout : Timeout) :
    (w.startWait stack t l c timeout).Stays reach w := by
  unfold startWait
  split
  · exact .giveFailure hstack _
  · exact ⟨rfl, trivial, hstack⟩

theorem stays_guardOver (hstack : StackWithin reach stack) (guard : GuardKind) {outcome : Outcome}
    (houtcome : Outcome.Within reach outcome) :
    (w.guardOver stack t l guard outcome).Stays reach w := by
  have hunlocking : StackWithin reach (.unlocking outcome :: stack) := .cons houtcome hstack
  have hunit : (Frame.unlocking (.ok .unit)).Within reach := trivial
  unfold guardOver
  split
  · exact stays_startUnlock t l hunlocking
  · exact stays_startUnlock t l (.cons hunit hstack)
  · split
    · exact ⟨rfl, trivial, hunlocking⟩
    · exact ⟨rfl, houtcome, hstack⟩

theorem stays_nextFinalizer (hstack : StackWithin reach stack) (calls : List (Nat × Finalizer))
    (ran : Nat) : (w.nextFinalizer stack calls ran).Stays reach w := by
  unfold nextFinalizer
  split
  · exact .give hstack trivial
  · refine stays_startBody ?_ _ _
    exact .cons trivial hstack

theorem stays_nextItem (hstack : StackWithin reach stack) {iteration : Iteration}
    (hitems : ∀ item ∈ iteration.items, ∀ v ∈ item, v.Within reach) :
    (w.nextItem stack iteration).Stays reach w := by
  unfold nextItem
  split
  · exact .give (hstack.reportEvent _) trivial
  · next item rest heq =>
    refine BodyRun.stays_proceed _ (.cons ?_ hstack)
    rw [heq] at hitems
    exact hitems

end World

theorem Awaited.store_mention (what : Awaited) (w : World) : (what.mention w).store = w.store := by
  cases what <;> simp [Awaited.mention]

theorem MutexOp.stays_start (op : MutexOp) (hstack : StackWithin reach stack) :
    (op.start w stack).Stays reach w := by
  have hnull : StackWithin reach (.showing .null :: stack) := .cons trivial hstack
  have hpair := w.store_threadAndLock
  cases op with
  | unlock t m => exact (World.stays_startUnlock _ _ hnull).of_store (hpair t m)
  | unlockInternal t m => exact (World.stays_release _ _ hstack).of_store (hpair t m)
  | tryLock t m =>
      have hflag : StackWithin reach (.showing .flag :: stack) := .cons trivial hstack
      exact (World.stays_startTryLock _ _ hflag).of_store (hpair t m)
  | checkOwned t m | rawTry t m | rawUnlock t m =>
      dsimp only [MutexOp.start]
      split <;> exact ⟨hpair t m, trivial, hstack⟩
  | info t m | rawRelease t m | rawSetHold t m holds => exact ⟨hpair t m, trivial, hstack⟩
  | debug m => exact ⟨w.store_lockNamed m, trivial, hstack⟩
  | dump what => exact .giveFailure hstack _
  | signal cv | broadcast cv | conditionInfo cv =>
      exact ⟨w.store_conditionNamed cv, trivial, hstack⟩

theorem ThreadOp.store_perform (op : ThreadOp Body) (scope : Scope) (w : World) :
    (op.perform scope w).1.world.store = w.store := by
  cases op with
  | detach => rw [ThreadOp.perform]; split <;> rfl
  | wakeUp name =>
      simp only [ThreadOp.perform]
      split <;> exact w.store_threadNamed name
  | pauseSome names label body => exact w.store_threadsNamed names
  | create | attach | current | list | idsIncrease | pauseAll | stats | resetStats => rfl
  | info name | debug name | interrupt name | clearWakeUp name | setWakeUp name
  | takeInterrupt name | takeWakeUp name | checkInterrupted name | raiseIn name | kill name
  | submit name => exact w.store_threadNamed name

theorem StackOp.store_perform (op : StackOp) (w : World) :
    (op.perform w).world.store = w.store := by
  cases op with
  | ask bt questions =>
      simp only [StackOp.perform]
      split
      · split <;> rfl
      · rfl
  | runtimeInfo => rfl
  | setLocation name | stack name | capture name | formatCurrent name | printable name =>
      exact w.store_threadNamed name

theorem Showing.within_apply (how : Showing) (running : Running) (outcome : Outcome) :
    Outcome.Within reach (how.apply w running outcome) := by
  unfold Showing.apply
  dsimp only
  split <;> try trivial
  split <;> trivial

theorem Frame.stays_receive {frame : Frame} (hframe : frame.Within reach)
    (hstack : StackWithin reach stack) {outcome : Outcome}
    (houtcome : Outcome.Within reach outcome) : (frame.receive w stack outcome).Stays reach w := by
  have hpass : ∀ failure, Task.Stays reach w ⟨w, .give (.error failure), stack⟩ :=
    fun _ => ⟨rfl, trivial, hstack⟩
  cases frame with
  | session | body => exact ⟨rfl, houtcome, hstack⟩
  | step running => exact ⟨rfl, trivial, hstack⟩
  | showing how => exact ⟨rfl, how.within_apply _ outcome, hstack⟩
  | blocking wait previous =>
      cases outcome with
      | ok y => exact ⟨rfl, houtcome, hstack⟩
      | error failure => exact hpass failure
  | polled wait =>
      have hresumed : StackWithin reach (resumed wait stack) :=
        hstack.of_shape (shape_resumed wait stack)
      rcases outcome with (e | _ | _ | _) | y
      case ok => exact World.stays_startBlocking hresumed hframe
      case error.error => exact .giveFailure hresumed _
      all_goals exact hpass _
  | polling t =>
      rcases outcome with (e | _ | _ | _) | y
      case ok => exact World.stays_nextAction t hstack
      case error.error =>
        refine ⟨?_, trivial, hstack⟩
        dsimp only [Frame.receive]
        split <;> rfl
      all_goals exact hpass _
  | acquiring t l =>
      cases outcome with
      | ok y => exact World.stays_recordAnd t l hstack houtcome
      | error failure => exact hpass failure
  | relocking t l holds pending =>
      rcases outcome with (e | _ | _ | _) | y
      case ok => exact World.stays_relocked t l hstack holds pending
      case error.error =>
        refine World.stays_startBlocking ?_ trivial
        exact .cons trivial hstack
      all_goals exact hpass _
  | waitPolled wait holds =>
      rcases outcome with (e | _ | _ | _) | y
      all_goals exact ⟨rfl, trivial, hstack⟩
  | finalizing left ran =>
      rcases outcome with (e | _ | _ | _) | y
      all_goals first | exact hpass _ | exact World.stays_nextFinalizer hstack left ran
  | waitOver result | sleepOver result =>
      rcases result with e' | o <;> rcases outcome with (e | _ | _ | _) | y
      all_goals exact ⟨rfl, trivial, hstack⟩
  | timing start =>
      cases outcome with
      | ok y => exact ⟨rfl, trivial, hstack⟩
      | error failure => exact hpass failure
  | sleeping t l =>
      have hover : ∀ result, StackWithin reach (.sleepOver result :: stack) :=
        fun _ => .cons trivial hstack
      rcases outcome with (e | _ | _ | _) | y
      case error.error => exact World.stays_startAcquire t l (hover _) trivial
      case ok =>
        cases y with
        | elapsed millis => exact World.stays_startAcquire t l (hover _) trivial
        | _ => exact ⟨rfl, houtcome, hstack⟩
      all_goals exact hpass _
  | entering t l callback kind =>
      cases outcome with
      | ok y =>
          refine World.stays_startBody ?_ _ _
          exact .cons trivial hstack
      | error failure => exact hpass failure
  | guarding t l kind => exact World.stays_guardOver t l hstack kind houtcome
  | unlocking held =>
      cases outcome with
      | ok y => exact ⟨rfl, hframe, hstack⟩
      | error failure => exact hpass failure
  | lyingDown t l timeout =>
      cases outcome with
      | ok y =>
          refine World.stays_startBlocking ?_ trivial
          exact .cons trivial (.cons trivial hstack)
      | error failure => exact hpass failure
  | iterating iteration =>
      have hitems := (List.forall_mem_cons.mp hframe).2
      cases outcome with
      | ok y => exact World.stays_nextItem hstack hitems
      | error failure => exact .giveFailure (hstack.reportEvent _) failure

theorem stays_continueWait (hstack : StackWithin reach stack) (me : Nat) (wait : ConditionWait)
    (phase : WaitPhase) : (continueWait me wait phase w stack).Stays reach w := by
  unfold continueWait
  split
  · refine World.stays_startPoll _ ?_
    exact .cons trivial hstack
  · refine World.stays_startAcquire _ _ ?_ trivial
    exact .cons trivial hstack
  · exact ⟨rfl, trivial, hstack⟩

end Calls

end Session

end RubyRuntime
