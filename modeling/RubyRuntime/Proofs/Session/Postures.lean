import RubyRuntime.Proofs.Session.Marks
import RubyRuntime.Proofs.Thread.Statuses

/-!
# What an executor stands on

What an executor is doing and the frames on its stack go together. Whoever performs a step has the
frame of that step on top. Whoever is inside a primitive has the frame of a blocking call on top,
and nowhere else, or has entered a bare lock. The session and the bodies of threads stand at the
bottom. A failure that is neither an error nor a panic is given to steps only. `Task.Settles` says
so of what begins on a stack, and that nothing but the beginning of a blocking call puts a thread to
sleep.
-/
namespace RubyRuntime.Session

def Failure.isBare : Failure → Bool
  | .interrupted | .lock _ _ => true
  | .error _ | .panic _ => false

def Outcome.isBare : Outcome → Bool
  | .error failure => failure.isBare
  | .ok _ => false

def Wait.isResumable : Wait → Bool
  | .scripted _ _ false => true
  | _ => false

structure Wait.Kin (wait next : Wait) : Prop where
  thread : next.thread = wait.thread
  resumable : next.isResumable = wait.isResumable

theorem Wait.Kin.refl (wait : Wait) : wait.Kin wait :=
  ⟨rfl, rfl⟩

theorem Wait.Kin.trans {wait wait' wait'' : Wait} (h : wait.Kin wait') (h' : wait'.Kin wait'') :
    wait.Kin wait'' :=
  ⟨h'.thread.trans h.thread, h'.resumable.trans h.resumable⟩

/-- Whether the frame on top is that of a blocking call that is inside its primitive. -/
def isBlocking : List Frame → Bool
  | .blocking _ _ :: _ => true
  | _ => false

def Frame.StandsOn (stack : List Frame) : Frame → Prop
  | .session _ _ => stack = []
  | .body run => run.kind.thread?.isSome → stack = []
  | .blocking wait _ | .polled wait =>
    wait.isResumable → ∃ how running base, stack = .showing how :: .step running :: base
  | .unlocking outcome => outcome.isBare = false
  | _ => True

def Frame.isPlain : Frame → Bool
  | .session _ _ | .blocking _ _ | .polled _ | .unlocking _ => false
  | .body run => run.kind.thread?.isNone
  | _ => true

/-- Whether the frames of a stack can stand on each other. A blocking call is inside its primitive
only while its frame is on top. -/
def Standing : List Frame → Prop
  | [] => True
  | frame :: stack => frame.StandsOn stack ∧ isBlocking stack = false ∧ Standing stack

/-- Something can begin on the stack. -/
structure Ready (stack : List Frame) : Prop where
  standing : Standing stack
  free : isBlocking stack = false

/-- What an executor is doing goes with the frames on its stack. -/
def Control.Poised (stack : List Frame) : Control → Prop
  | .perform _ => ∃ running base, stack = .step running :: base
  | .attempt wait | .parked wait _ _ | .interrupted wait =>
    (∃ wait' previous base, stack = .blocking wait' previous :: base ∧ wait'.Kin wait) ∨
    ∃ running base, stack = .showing .null :: .step running :: base
  | .give outcome => outcome.isBare → ∃ running base,
    stack = .step running :: base ∨ stack = .showing .null :: .step running :: base
  | .finished _ => True
  | _ => isBlocking stack = false

theorem isBlocking_shape {stack stack' : List Frame}
    (h : stack'.map Frame.shape = stack.map Frame.shape) :
    isBlocking stack' = isBlocking stack := by
  have hshape : ∀ stack : List Frame, isBlocking (stack.map Frame.shape) = isBlocking stack := by
    intro stack
    cases stack with
    | nil => rfl
    | cons frame stack => cases frame <;> rfl
  rw [← hshape, h, hshape]

theorem exists_step_of_shape {running : Running} {stack base : List Frame}
    (h : stack.map Frame.shape = (.step running :: base).map Frame.shape) :
    ∃ running' base', stack = .step running' :: base' := by
  cases stack with
  | nil => cases h
  | cons frame stack =>
      injection h with hframe hstack
      cases frame <;> first | exact ⟨_, _, rfl⟩ | cases hframe

theorem exists_shown_of_shape {how : Showing} {running : Running} {stack base : List Frame}
    (h : stack.map Frame.shape = (.showing how :: .step running :: base).map Frame.shape) :
    ∃ running' base', stack = .showing how :: .step running' :: base' := by
  obtain ⟨below, rfl, hbelow⟩ : ∃ below, stack = [.showing how] ++ below ∧
      below.map Frame.shape = (.step running :: base).map Frame.shape :=
    exists_below_of_shape h (by simp)
  obtain ⟨running', base', rfl⟩ := exists_step_of_shape hbelow
  exact ⟨running', base', rfl⟩

theorem Frame.StandsOn.of_shape {frame : Frame} {stack stack' : List Frame}
    (h : frame.StandsOn stack) (hshape : stack'.map Frame.shape = stack.map Frame.shape) :
    frame.StandsOn stack' := by
  have hshown : (∃ how running base, stack = .showing how :: .step running :: base) →
      ∃ how running base, stack' = .showing how :: .step running :: base := by
    rintro ⟨how, running, base, rfl⟩
    exact ⟨how, exists_shown_of_shape hshape⟩
  have hempty : stack = [] → stack' = [] := by
    rintro rfl
    simpa using hshape
  cases frame with
  | session remaining answers => exact hempty h
  | body run => exact fun hthread => hempty (h hthread)
  | blocking wait previous => exact fun hwait => hshown (h hwait)
  | polled wait => exact fun hwait => hshown (h hwait)
  | _ => exact h

theorem Standing.of_shape {stack stack' : List Frame} (h : Standing stack)
    (hshape : stack'.map Frame.shape = stack.map Frame.shape) : Standing stack' := by
  induction stack' generalizing stack with
  | nil => trivial
  | cons frame' stack' ih =>
      cases stack with
      | nil => cases hshape
      | cons frame stack =>
          injection hshape with hframe hstack
          obtain ⟨hstands, hfree, hstanding⟩ := h
          refine ⟨?_, (isBlocking_shape hstack).trans hfree, ih hstanding hstack⟩
          cases frame with
          | step running => cases frame' <;> trivial
          | _ =>
              rw [Frame.eq_of_shape hframe (by simp)]
              exact hstands.of_shape hstack

namespace Ready

variable {stack stack' : List Frame}

theorem of_shape (h : Ready stack) (hshape : stack'.map Frame.shape = stack.map Frame.shape) :
    Ready stack' :=
  ⟨h.standing.of_shape hshape, (isBlocking_shape hshape).trans h.free⟩

theorem push {frame : Frame} (h : Ready stack) (hframe : frame.isPlain) :
    Ready (frame :: stack) := by
  refine ⟨⟨?_, h.free, h.standing⟩, ?_⟩
  · cases frame with
    | body run =>
        intro hthread
        rw [Frame.isPlain, Option.isNone_iff_eq_none] at hframe
        rw [hframe] at hthread
        cases hthread
    | _ => trivial
  · cases frame <;> first | rfl | cases hframe

theorem push_unlocking {outcome : Outcome} (h : Ready stack) (hbare : outcome.isBare = false) :
    Ready (.unlocking outcome :: stack) :=
  ⟨⟨hbare, h.free, h.standing⟩, rfl⟩

theorem reportEvent (h : Ready stack) (event : Report) : Ready (reportEvent event stack) :=
  h.of_shape (shape_reportEvent event stack)

end Ready

/-- Nothing stands below a frame that belongs to the bottom. -/
theorem Standing.isInner {frame : Frame} {above below : List Frame}
    (h : Standing (above ++ frame :: below)) : ∀ f ∈ above, f.isInner := by
  induction above with
  | nil => simp
  | cons first above ih =>
      obtain ⟨hfirst, -, hstanding⟩ := h
      intro f hf
      rcases List.mem_cons.mp hf with rfl | hf
      · cases f with
        | session remaining answers => simp [Frame.StandsOn] at hfirst
        | body run =>
            cases hkind : run.kind with
            | thread t => simp [Frame.StandsOn, hkind, BodyKind.thread?] at hfirst
            | _ => simp [Frame.isInner, Frame.isBottom, hkind]
        | _ => rfl
      · exact ih hstanding f hf

theorem Standing.below {frame : Frame} {stack : List Frame} (h : Standing (frame :: stack)) :
    Ready stack :=
  ⟨h.2.2, h.2.1⟩

/-- What a task that has begun in world `w` comes to. It has begun a blocking call, which remembers
the status of its thread, or it puts no thread to sleep and is not inside a primitive with the frame
of a blocking call. One thread may have come to its end. -/
inductive Task.Settles (but : Option ThreadId) (w : World) : Task → Prop where
  | blocks {w' : World} {base : List Frame} {wait : Wait} (hsame : w.SameStatus but w')
    (hbase : Ready base)
    (hwait : wait.isResumable → ∃ how running rest, base = .showing how :: .step running :: rest) :
    Settles but w (w'.startBlocking base wait)
  | goes {task : Task} (hsame : w.SameStatus but task.world)
    (hcontrol : task.control.Poised task.stack) (hstack : Ready task.stack) : Settles but w task

namespace Task.Settles

variable {task : Task} {but : Option ThreadId} {w w' : World}

theorem of_same (h : task.Settles but w') (hsame : w.SameStatus but w') : task.Settles but w := by
  cases h with
  | blocks h hbase hwait => exact .blocks (hsame.trans h) hbase hwait
  | goes h hcontrol hstack => exact .goes (hsame.trans h) hcontrol hstack

theorem of_none (h : task.Settles none w) : task.Settles but w := by
  cases h with
  | blocks h hbase hwait => exact .blocks (Sync.SameStatus.of_none h) hbase hwait
  | goes h hcontrol hstack => exact .goes (Sync.SameStatus.of_none h) hcontrol hstack

theorem of_quiet (h : task.Settles but w') (hquiet : w.Quiet none w') : task.Settles but w :=
  h.of_same hquiet.sameStatus.of_none

theorem poised (h : task.Settles but w) :
    task.control.Poised task.stack ∧ Standing task.stack := by
  cases h with
  | blocks hsame hbase hwait =>
      exact ⟨.inl ⟨_, _, _, rfl, .refl _⟩, hwait, hbase.free, hbase.standing⟩
  | goes hsame hcontrol hstack => exact ⟨hcontrol, hstack.standing⟩

end Task.Settles

theorem Ending.isBare_outcome (ending : Ending) (failure : Option Error) :
    Outcome.isBare (ending.outcome failure) = false := by
  unfold Ending.outcome
  split <;> rfl

theorem Showing.isBare_apply {outcome : Outcome} (how : Showing) (w : World) (running : Running)
    (h : outcome.isBare = false) : Outcome.isBare (how.apply w running outcome) = false := by
  rcases outcome with (e | _ | _ | _) | y
  · cases how <;> rfl
  · cases h
  · cases h
  · cases how <;> rfl
  · cases how with
    | pushed =>
        cases y with
        | flag b => cases b <;> rfl
        | _ => rfl
    | taken | polled =>
        cases y with
        | taken item => rcases item with _ | _ | _ <;> rfl
        | _ => rfl
    | _ => cases y <;> rfl

section

variable {but : Option ThreadId} {stack : List Frame} (w : World) (t : ThreadId) (l : LockId)

theorem settles_give {w : World} {outcome : Outcome} (h : Ready stack)
    (hbare : outcome.isBare = false) : Task.Settles but w ⟨w, .give outcome, stack⟩ := by
  refine .goes (.refl w) ?_ h
  intro hraw
  rw [hbare] at hraw
  cases hraw

namespace BodyRun

variable (run : BodyRun)

theorem settles_conclude (failure : Option Error) (h : Ready stack) :
    (run.conclude failure w stack).Settles run.kind.thread? w := by
  have hbare := run.ending.isBare_outcome failure
  have hsame := (run.quiet_conclude w stack failure).sameStatus
  unfold conclude at hsame ⊢
  dsimp only at hsame ⊢
  split
  · exact settles_give (h.reportEvent _) hbare
  · next t hkind =>
    simp only [hkind] at hsame ⊢
    exact .goes hsame trivial ⟨trivial, rfl⟩
  · refine settles_give ?_ hbare
    split
    · exact h.reportEvent _
    · exact h
  · next t depth hkind =>
    split
    · next e houtcome =>
      rw [houtcome] at hbare
      exact (settles_give h hbare).of_quiet (w.quiet_cutStack t depth)
    · exact (settles_give h rfl).of_quiet (w.quiet_cutStack t depth)

theorem settles_proceed (h : Ready stack) (hrun : (Frame.body run).StandsOn stack) :
    (run.proceed w stack).Settles run.kind.thread? w := by
  unfold proceed
  split
  · exact run.settles_conclude w none h
  · next step rest hremaining =>
    have hbody : Ready (.body { run with remaining := rest } :: stack) :=
      ⟨⟨hrun, h.free, h.standing⟩, rfl⟩
    exact .goes (.refl w) ⟨_, _, rfl⟩ (hbody.push rfl)

theorem settles_proceed_of_none (h : Ready stack) (hkind : run.kind.thread? = none) :
    (run.proceed w stack).Settles but w := by
  have hrun : (Frame.body run).StandsOn stack := by
    intro hthread
    rw [hkind] at hthread
    cases hthread
  exact Task.Settles.of_none (hkind ▸ run.settles_proceed w h hrun)

end BodyRun

namespace World

theorem settles_startBody {kind : BodyKind} (body : Body) (h : Ready stack)
    (hkind : kind.thread? = none) : (w.startBody stack kind body).Settles but w :=
  BodyRun.settles_proceed_of_none w _ h hkind

theorem settles_nextAction (h : Ready stack) : (w.nextAction stack t).Settles but w := by
  have hpopped : w.SameStatus but (w.updateThread t fun _ => (w.thread t).popAction.2) :=
    w.sameStatus_updateThread t (.inr rfl)
  unfold nextAction
  dsimp only
  split
  · have hcounted : ∀ w : World, w.SameStatus but (w.updateSync fun s =>
        { s with safepoints := s.safepoints + 1 }) :=
      fun w => Sync.SameStatus.of_thread fun _ => rfl
    exact (settles_give h rfl).of_same (hpopped.trans (hcounted _))
  · exact (settles_startBody _ _ (h.push rfl) rfl).of_same hpopped
  · exact (settles_give (h.push rfl) rfl).of_same hpopped
  · exact (settles_give (h.push rfl) rfl).of_same hpopped

theorem settles_startPoll (h : Ready stack) : (w.startPoll stack t).Settles but w := by
  unfold startPoll
  split
  · exact w.settles_nextAction t h
  · exact settles_give h rfl

theorem settles_startBlocking {wait : Wait} (h : Ready stack) (hwait : wait.isResumable = false) :
    (w.startBlocking stack wait).Settles but w := by
  refine .blocks (.refl w) h fun hresumable => ?_
  rw [hwait] at hresumable
  cases hresumable

theorem settles_recordAnd {outcome : Outcome} (h : Ready stack) (hbare : outcome.isBare = false) :
    (w.recordAnd stack t l outcome).Settles but w := by
  have hsame : w.SameStatus but (w.recordAnd stack t l outcome).world :=
    (w.quiet_recordAnd stack t l outcome).sameStatus.of_none
  unfold recordAnd at hsame ⊢
  split
  · next sync hrecord =>
    rw [hrecord] at hsame
    exact (settles_give h hbare).of_same hsame
  · exact settles_give h rfl

theorem settles_startAcquire {due : Frame} (h : Ready stack) (hdue : Ready (due :: stack)) :
    (w.startAcquire stack t l due).Settles but w := by
  unfold startAcquire
  split
  · next sync hacquire =>
    exact (settles_give hdue rfl).of_quiet (.of_sync (.of_acquire hacquire))
  · exact settles_startBlocking w hdue rfl
  · exact settles_give h rfl

theorem settles_startMutex (h : Ready stack) : (w.startMutex stack t l).Settles but w := by
  unfold startMutex
  split
  · exact settles_give h rfl
  · exact w.settles_startAcquire t l h (h.push rfl)

theorem settles_startTryLock (h : Ready stack) : (w.startTryLock stack t l).Settles but w := by
  unfold startTryLock
  split
  · exact settles_give h rfl
  · split
    · next sync hacquire =>
      exact (settles_give (h.push rfl) rfl).of_quiet (.of_sync (.of_acquire hacquire))
    · exact settles_give h rfl
    · exact settles_give h rfl

theorem settles_startUnlock (h : Ready stack) : (w.startUnlock stack t l).Settles but w := by
  unfold startUnlock
  split
  · exact .goes (.refl w) h.free h
  · exact settles_give h rfl

theorem settles_release (h : Ready stack) : (w.release stack t l).Settles but w := by
  unfold release
  split
  · next sync hunlock =>
    exact (settles_give h rfl).of_quiet (.of_sync (.of_unlockInternal hunlock))
  · exact settles_give h rfl

theorem settles_relocked (holds : UInt32) (pending : Option Error) (h : Ready stack) :
    (w.relocked stack t l holds pending).Settles but w := by
  refine Task.Settles.of_quiet ?_ (w.quiet_updateLock l (·.setHoldCount t holds))
  refine settles_recordAnd _ t l h ?_
  cases pending <;> rfl

theorem settles_startRelock (holds : UInt32) (h : Ready stack) :
    (w.startRelock stack t l holds).Settles but w :=
  w.settles_startAcquire t l h (h.push rfl)

theorem settles_startSleep (timeout : Timeout) (h : Ready stack) :
    (w.startSleep stack t timeout).Settles but w :=
  w.settles_startBlocking (h.push rfl) rfl

theorem settles_startMutexSleep (timeout : Timeout) (h : Ready stack) :
    (w.startMutexSleep stack t l timeout).Settles but w := by
  unfold startMutexSleep
  split
  · exact settles_give h rfl
  · exact .goes (w.sameStatus_updateThread t (.inr rfl)) rfl (h.push rfl)

theorem settles_startWait (c : ConditionId) (timeout : Timeout) (h : Ready stack) :
    (w.startWait stack t l c timeout).Settles but w := by
  unfold startWait
  split
  · exact settles_give h rfl
  · exact .goes (w.sameStatus_updateThread t (.inr rfl)) h.free h

theorem settles_guardOver {outcome : Outcome} (guard : GuardKind) (h : Ready stack)
    (hbare : outcome.isBare = false) : (w.guardOver stack t l guard outcome).Settles but w := by
  unfold guardOver
  split
  · exact w.settles_startUnlock t l (h.push_unlocking rfl)
  · exact w.settles_startUnlock t l (h.push_unlocking rfl)
  · split
    · exact .goes (.refl w) rfl (h.push_unlocking hbare)
    · exact settles_give h hbare

theorem settles_nextFinalizer (calls : List (Nat × Finalizer)) (ran : Nat) (h : Ready stack) :
    (w.nextFinalizer stack calls ran).Settles but w := by
  cases calls with
  | nil => exact settles_give h rfl
  | cons call rest => exact w.settles_startBody _ (h.push rfl) rfl

theorem settles_startFinalizers (held : List ObjectRef) (run : FinalizerRun) (h : Ready stack) :
    (w.startFinalizers held stack run).Settles but w :=
  (settles_nextFinalizer _ _ _ h).of_same (.of_sync_eq rfl)

theorem settles_nextItem (iteration : Iteration) (h : Ready stack) :
    (w.nextItem stack iteration).Settles but w := by
  unfold nextItem
  split
  · exact settles_give (h.reportEvent _) rfl
  · exact BodyRun.settles_proceed_of_none w _ (h.push rfl) rfl

theorem settles_startEach (held : List ObjectRef) (wm : String) (what : Yielded)
    (block : Option (Block Step)) (h : Ready stack) :
    (w.startEach held stack wm what block).Settles but w := by
  have hpairs : w.Quiet none ((w.weakMapNamed wm).2.weakPairs held (w.weakMapNamed wm).1).2 :=
    .of_eq (by simp [weakPairs])
  refine Task.Settles.of_quiet ?_ hpairs
  cases block with
  | some block => exact settles_nextItem _ _ h
  | none =>
      cases what <;> dsimp only [startEach] <;> split <;>
        exact settles_give (h.reportEvent _) rfl

theorem settles_callBounded (s : String) {f : Nat → Task} (h : Ready stack)
    (hf : ∀ q, (f q).Settles but w) : (w.callBounded stack s f).Settles but w := by
  unfold callBounded
  split
  · exact hf _
  · exact settles_give h rfl

end World

end

section

variable {but : Option ThreadId} {stack : List Frame} {running : Running} {base : List Frame}
  (w : World)

theorem settles_answered {outcome : Outcome} (h : Ready stack)
    (hstep : ∃ running base, stack = .step running :: base) :
    Task.Settles but w ⟨w, .give outcome, stack⟩ := by
  obtain ⟨running, base, rfl⟩ := hstep
  exact .goes (.refl w) (fun _ => ⟨running, base, .inl rfl⟩) h

theorem settles_afterReply {reply : Reply} (hsame : w.SameStatus but reply.world)
    (h : Ready (.step running :: base)) :
    (afterReply (.step running :: base) reply).Settles but w := by
  have hevents : ∀ (events : List Report) (stack : List Frame),
      (events.foldl (fun stack event => reportEvent event stack) stack).map Frame.shape =
        stack.map Frame.shape := by
    intro events
    induction events with
    | nil => exact fun _ => rfl
    | cons event events ih =>
        intro stack
        rw [List.foldl_cons, ih, shape_reportEvent]
  have hshape := hevents reply.events (.step running :: base)
  exact (settles_answered _ (h.of_shape hshape) (exists_step_of_shape hshape)).of_same hsame

theorem MutexOp.settles_start (op : MutexOp) (h : Ready (.step running :: base)) :
    (op.start w (.step running :: base)).Settles but w := by
  have hpair := w.quiet_threadAndLock
  have hstep : ∀ {w' : World} {outcome : Outcome}, w.Quiet none w' →
      Task.Settles but w ⟨w', .give outcome, .step running :: base⟩ :=
    fun hquiet => (settles_answered _ h ⟨running, base, rfl⟩).of_quiet hquiet
  cases op with
  | unlock t m => exact (World.settles_startUnlock _ _ _ (h.push rfl)).of_quiet (hpair t m)
  | tryLock t m => exact (World.settles_startTryLock _ _ _ (h.push rfl)).of_quiet (hpair t m)
  | unlockInternal t m => exact (World.settles_release _ _ _ h).of_quiet (hpair t m)
  | checkOwned t m =>
      dsimp only [MutexOp.start]
      split <;> exact hstep (hpair t m)
  | rawTry t m =>
      dsimp only [MutexOp.start]
      split
      · next sync hacquire => exact hstep ((hpair t m).trans (.of_sync (.of_acquire hacquire)))
      · exact hstep (hpair t m)
      · exact hstep (hpair t m)
  | rawUnlock t m =>
      dsimp only [MutexOp.start]
      split
      · exact hstep ((hpair t m).trans (World.quiet_updateLock _ _ _))
      · exact hstep (hpair t m)
  | rawRelease t m | rawSetHold t m holds =>
      exact hstep ((hpair t m).trans (World.quiet_updateLock _ _ _))
  | info t m => exact hstep (hpair t m)
  | debug m => exact hstep (w.quiet_lockNamed m)
  | dump what => exact hstep (.refl w)
  | signal cv | broadcast cv =>
      exact hstep ((w.quiet_conditionNamed cv).trans (.of_sync (.of_thread fun _ => rfl)))
  | conditionInfo cv => exact hstep (w.quiet_conditionNamed cv)

theorem CallOp.settles_start (op : CallOp Body Step) (held : List ObjectRef)
    (h : Ready (.step running :: base)) :
    (op.start held w (.step running :: base)).Settles but w := by
  have hthread := w.quiet_threadNamed
  have hpair := w.quiet_threadAndLock
  cases op with
  | poll name => exact (World.settles_startPoll _ _ (h.push rfl)).of_quiet (hthread name)
  | sleep name timeout =>
      exact (World.settles_startSleep _ _ timeout (h.push rfl)).of_quiet (hthread name)
  | runUntil name script plain =>
      exact .blocks (hthread name).sameStatus.of_none (h.push rfl) fun _ => ⟨_, _, _, rfl⟩
  | spawn | join => exact settles_give h rfl
  | await what => exact .goes (what.quiet_mention w).sameStatus.of_none rfl h
  | lock t m => exact (World.settles_startMutex _ _ _ (h.push rfl)).of_quiet (hpair t m)
  | lockInternal t m =>
      exact (World.settles_startAcquire _ _ _ (h.push rfl) ((h.push rfl).push rfl)).of_quiet
        (hpair t m)
  | lockEven t m holds =>
      exact (World.settles_startRelock _ _ _ holds (h.push rfl)).of_quiet (hpair t m)
  | mutexSleep t m timeout =>
      exact (World.settles_startMutexSleep _ _ _ timeout (h.push rfl)).of_quiet (hpair t m)
  | synchronize t m body | guarded t m body unlock =>
      exact (World.settles_startMutex _ _ _ ((h.push rfl).push rfl)).of_quiet (hpair t m)
  | rawLock t m =>
      exact .goes (hpair t m).sameStatus.of_none (.inr ⟨running, base, rfl⟩) (h.push rfl)
  | wait t m cv timeout =>
      exact (World.settles_startWait _ _ _ _ timeout (h.push rfl)).of_quiet
        ((hpair t m).trans (World.quiet_conditionNamed _ cv))
  | take t q | pollTimeout t q timeout | pop t q | popTimeout t q timeout =>
      exact (World.settles_startBlocking _ (h.push rfl) rfl).of_quiet
        ((hthread t).trans (World.quiet_queueNamed _ q))
  | boundedPut t s v | boundedPush t s v =>
      exact w.settles_callBounded s h fun q =>
        (World.settles_startBlocking _ (h.push rfl) rfl).of_quiet
          ((hthread t).trans (World.quiet_evaluate _ v))
  | boundedTake t s | boundedPollTimeout t s timeout | boundedPop t s
  | boundedPopTimeout t s timeout =>
      exact w.settles_callBounded s h fun q =>
        (World.settles_startBlocking _ (h.push rfl) rfl).of_quiet (hthread t)
  | finalize run => exact w.settles_startFinalizers held run (h.push rfl)
  | each wm what block => exact w.settles_startEach held wm what block (h.push rfl)
  | frame name frames steps forget =>
      exact (BodyRun.settles_proceed_of_none _ _ (h.push rfl) rfl).of_quiet
        ((hthread name).trans (World.quiet_updateThread _ _ ⟨rfl, rfl⟩ id (.inr rfl)))

/-- What a frame does with a result, an error or a panic, unless a blocking call ends. -/
private theorem Frame.settles_receive_of_not_bare {frame : Frame} {outcome : Outcome}
    (hbare : outcome.isBare = false) (h : Ready (frame :: stack)) :
    (frame.receive w stack outcome).Settles but w := by
  have hbelow : Ready stack := h.standing.below
  have hpass : Task.Settles but w ⟨w, .give outcome, stack⟩ := settles_give hbelow hbare
  cases frame with
  | step running => exact .goes (.refl w) hbelow.free hbelow
  | showing how => exact settles_give hbelow (how.isBare_apply w _ hbare)
  | blocking wait previous => cases h.free
  | session | body => exact hpass
  | polled wait =>
      have hresumed : Ready (resumed wait stack) := hbelow.of_shape (shape_resumed wait stack)
      rcases outcome with (e | _ | _ | _) | y
      · exact settles_give hresumed rfl
      · exact hpass
      · exact hpass
      · exact hpass
      · refine .blocks (.refl w) hresumed fun hwait => ?_
        obtain ⟨how, running, rest, rfl⟩ := h.standing.1 hwait
        exact ⟨how, exists_shown_of_shape (shape_resumed wait _)⟩
  | polling t =>
      rcases outcome with (e | _ | _ | _) | y
      · exact (settles_give hbelow rfl).of_quiet
          ((Frame.polling t).quiet_receive w stack (.error (.error e)) rfl)
      · exact hpass
      · exact hpass
      · exact hpass
      · exact w.settles_nextAction t hbelow
  | acquiring t l =>
      cases outcome with
      | ok y => exact w.settles_recordAnd t l hbelow rfl
      | error failure => exact hpass
  | relocking t l holds pending =>
      rcases outcome with (e | _ | _ | _) | y
      · exact w.settles_startBlocking (hbelow.push rfl) rfl
      · exact hpass
      · exact hpass
      · exact hpass
      · exact w.settles_relocked t l holds pending hbelow
  | waitPolled wait holds =>
      rcases outcome with (e | _ | _ | _) | y
      · exact .goes (.refl w) hbelow.free hbelow
      · exact hpass
      · exact hpass
      · exact hpass
      · exact .goes (.refl w) hbelow.free hbelow
  | waitOver result | sleepOver result =>
      rcases result with e' | o <;> rcases outcome with (e | _ | _ | _) | y <;>
        first | exact settles_give hbelow rfl | exact hpass
  | timing start =>
      cases outcome with
      | ok y => exact settles_give hbelow rfl
      | error failure => exact hpass
  | unlocking kept =>
      cases outcome with
      | ok y => exact settles_give hbelow h.standing.1
      | error failure => exact hpass
  | lyingDown t l timeout =>
      cases outcome with
      | ok y => exact w.settles_startSleep t timeout (hbelow.push rfl)
      | error failure => exact hpass
  | sleeping t l =>
      rcases outcome with (e | _ | _ | _) | y
      · exact w.settles_startRelock t l 1 (hbelow.push rfl)
      · exact hpass
      · exact hpass
      · exact hpass
      · cases y with
        | elapsed millis => exact w.settles_startRelock t l 1 (hbelow.push rfl)
        | _ => exact hpass
  | entering t l callback kind =>
      cases outcome with
      | ok y => exact w.settles_startBody _ (hbelow.push rfl) rfl
      | error failure => exact hpass
  | guarding t l kind => exact w.settles_guardOver t l kind hbelow hbare
  | finalizing calls ran =>
      rcases outcome with (e | _ | _ | _) | y
      · exact w.settles_nextFinalizer calls ran hbelow
      · exact hpass
      · exact hpass
      · exact hpass
      · exact w.settles_nextFinalizer calls ran hbelow
  | iterating iteration =>
      cases outcome with
      | ok y => exact w.settles_nextItem iteration hbelow
      | error failure => exact settles_give (hbelow.reportEvent _) hbare

/-- What a frame does with an outcome that it can be given, unless a blocking call ends. -/
theorem Frame.settles_receive {frame : Frame} {outcome : Outcome}
    (hcontrol : Control.Poised (frame :: stack) (.give outcome)) (h : Ready (frame :: stack)) :
    (frame.receive w stack outcome).Settles but w := by
  by_cases hbare : outcome.isBare = false
  · exact settles_receive_of_not_bare w hbare h
  · have hbelow : Ready stack := h.standing.below
    obtain ⟨running, base, htop | htop⟩ := hcontrol (by simpa using hbare)
    · cases htop
      exact .goes (.refl w) hbelow.free hbelow
    · cases htop
      exact settles_answered w hbelow ⟨running, base, rfl⟩

theorem settles_continueWait (me : Nat) (wait : ConditionWait) (phase : WaitPhase)
    (h : Ready stack) : (continueWait me wait phase w stack).Settles but w := by
  have hstep : w.SameStatus none { w with sync := (wait.step w.clock me phase w.sync).2 } :=
    Sync.SameStatus.of_steps (wait.steps w.clock me phase w.sync)
  cases phase with
  | polling holds => exact w.settles_startPoll wait.thread (h.push rfl)
  | relocking holds result =>
      exact w.settles_startRelock wait.thread wait.lock holds (h.push rfl)
  | _ => exact .goes hstep.of_none h.free h

theorem settles_receiveAnswer (watched : List Watched) (held : List ObjectRef) (report : Report)
    (failure : Option Error) (h : Ready stack)
    (hbut : ∀ run base, stack = .body run :: base → run.kind.thread? = but) :
    (receiveAnswer watched held w stack report failure).Settles but w := by
  unfold receiveAnswer
  split
  · next run base =>
    have hbelow : Ready base := h.standing.below
    let next : BodyRun := { run with answers := report :: run.answers }
    rw [← hbut run base rfl]
    cases failure with
    | some e => exact next.settles_conclude w (some e) hbelow
    | none => exact next.settles_proceed w hbelow h.standing.1
  · refine Task.Settles.of_quiet ?_ (w.quiet_snapshots held watched)
    dsimp only [nextStep]
    split
    · exact .goes (.refl _) trivial ⟨trivial, rfl⟩
    · exact .goes (.refl _) ⟨_, _, rfl⟩ ⟨⟨trivial, rfl, rfl, rfl, trivial⟩, rfl⟩
  · exact .goes (.refl w) trivial h

end

namespace Wait

variable (ticket : Ticket) (w : World)

/-- What entering a primitive comes to: the primitive goes on for the same thread, or it is over. -/
def Leads (wait : Wait) : Progress → Prop
  | .interrupted next | .parked next _ _ => wait.Kin next
  | .done _ | .panics _ => True

private theorem leads_unlessInterrupted {wait wait' : Wait} {next : World × Progress}
    (hkin : wait.Kin wait') (hnext : wait.Leads next.2) :
    wait.Leads (wait'.unlessInterrupted w next).2 := by
  unfold unlessInterrupted
  split
  · exact hkin
  · exact hnext

theorem leads_attempt (wait : Wait) : wait.Leads (wait.attempt ticket w).2 := by
  cases wait with
  | park t deadline parking =>
      simp only [attempt]
      split
      · split
        · exact ⟨rfl, rfl⟩
        · trivial
      · exact ⟨rfl, rfl⟩
  | acquire t l =>
      simp only [attempt]
      split
      · trivial
      · exact leads_unlessInterrupted w (.refl _) (.refl _)
      · trivial
  | take t q deadline | boundedTake t q deadline | put t q item =>
      simp only [attempt]
      split
      · trivial
      · exact ⟨rfl, rfl⟩
  | scripted t cues plain =>
      have hkin : (scripted t cues plain).Kin (scripted t cues.tail plain) := by
        refine ⟨rfl, ?_⟩
        cases plain <;> rfl
      simp only [attempt]
      split
      · exact hkin
      · exact leads_unlessInterrupted w hkin trivial
      · trivial

theorem leads_resume (wait : Wait) (old : Ticket) : wait.Leads (wait.resume old ticket w).2 := by
  cases wait with
  | park | scripted | acquire => exact leads_attempt ticket _ _
  | take | boundedTake | put => exact leads_unlessInterrupted _ (.refl _) (leads_attempt ticket _ _)

end Wait

def Executor.ended? (e : Executor) : Option ThreadId :=
  match e.control, e.stack with
  | .perform (.thread .detach), _ => e.current
  | .answer _ _, .body run :: _ => run.kind.thread?
  | _, _ => none

structure Executor.Poised (e : Executor) : Prop where
  control : e.control.Poised e.stack
  standing : Standing e.stack

/-- What the next step of an executor comes to, as far as sleepers are concerned. -/
inductive Executor.Rests (w : World) (e : Executor) : Task → Prop where
  | settles {task : Task} (hfree : isBlocking e.stack = false) (h : task.Settles e.ended? w) :
    Rests w e task
  | enters {wait : Wait} {w' : World} {stack : List Frame} {progress : Progress}
    (hcontrol : e.control = .attempt wait ∨ ∃ ticket wakeAt, e.control = .parked wait ticket wakeAt)
    (hsame : w.SameStatus none w') (hleads : wait.Leads progress)
    (hshape : stack.map Frame.shape = e.stack.map Frame.shape) :
    Rests w e (afterAttempt stack w' progress)
  | polls {wait wait' : Wait} {previous : Status} {base : List Frame}
    (hcontrol : e.control = .interrupted wait)
    (hstack : e.stack = .blocking wait' previous :: base) :
    Rests w e (World.startPoll
      (w.updateThread wait.thread fun thread => { thread with status := previous })
      (.polled wait :: base) wait.thread)
  | returns {y : Yield} {wait : Wait} {previous : Status} {base : List Frame}
    (hcontrol : e.control = .give (.ok y)) (hstack : e.stack = .blocking wait previous :: base) :
    Rests w e ((w.updateThread wait.thread fun thread => { thread with status := previous }).give
      base y)
  | fails {failure : Failure} {wait : Wait} {previous : Status} {base : List Frame}
    (hcontrol : e.control = .give (.error failure))
    (hstack : e.stack = .blocking wait previous :: base) :
    Rests w e ⟨w, .give (.error failure), base⟩

theorem Executor.Poised.ready {e : Executor} (h : e.Poised) (hfree : isBlocking e.stack = false) :
    Ready e.stack :=
  ⟨h.standing, hfree⟩

theorem Executor.Poised.below {e : Executor} {frame : Frame} {base : List Frame} (h : e.Poised)
    (hstack : e.stack = frame :: base) : Ready base := by
  have hstanding := h.standing
  rw [hstack] at hstanding
  exact hstanding.below

/-- What an interrupted blocking call leaves below its poll. -/
theorem Executor.Poised.ready_polled {e : Executor} {wait wait' : Wait} {previous : Status}
    {base : List Frame} (h : e.Poised) (hcontrol : e.control = .interrupted wait)
    (hstack : e.stack = .blocking wait' previous :: base) : Ready (.polled wait :: base) := by
  have hposed := h.control
  have hstanding := h.standing
  rw [hcontrol, hstack] at hposed
  rw [hstack] at hstanding
  refine ⟨⟨fun hwait => ?_, hstanding.2.1, hstanding.2.2⟩, rfl⟩
  rcases hposed with ⟨wait'', previous', base', htop, hkin⟩ | ⟨running, base', htop⟩
  · cases htop
    exact hstanding.1 (hkin.resumable ▸ hwait)
  · cases htop

theorem Executor.Rests.poised {w : World} {e : Executor} {task : Task} (h : e.Rests w task)
    (hposed : e.Poised) : task.control.Poised task.stack ∧ Standing task.stack := by
  cases h with
  | settles hfree h => exact h.poised
  | @enters wait w' stack progress hcontrol hsame hleads hshape =>
      have hstands : (∃ wait' previous base, stack = .blocking wait' previous :: base ∧
          wait'.Kin wait) ∨ ∃ running base, stack = .showing .null :: .step running :: base := by
        have htop : Control.Poised e.stack (.attempt wait) := by
          have hcontrol' := hposed.control
          rcases hcontrol with hcontrol | ⟨ticket, wakeAt, hcontrol⟩
          all_goals
            rw [hcontrol] at hcontrol'
            exact hcontrol'
        rcases htop with ⟨wait', previous, base, hstack, hkin⟩ | ⟨running, base, hstack⟩
        · rw [hstack] at hshape
          obtain ⟨below, rfl, -⟩ : ∃ below, stack = [.blocking wait' previous] ++ below ∧
              below.map Frame.shape = base.map Frame.shape :=
            exists_below_of_shape hshape (by simp)
          exact .inl ⟨wait', previous, below, rfl, hkin⟩
        · rw [hstack] at hshape
          exact .inr (exists_shown_of_shape hshape)
      have hstanding : Standing stack := hposed.standing.of_shape hshape
      have hnext : ∀ next : Wait, wait.Kin next → Control.Poised stack (.attempt next) := by
        intro next hkin
        rcases hstands with ⟨wait', previous, base, hstack, hkin'⟩ | htop
        · exact .inl ⟨wait', previous, base, hstack, hkin'.trans hkin⟩
        · exact .inr htop
      cases progress with
      | done y => exact ⟨nofun, hstanding⟩
      | interrupted next => exact ⟨hnext next hleads, hstanding⟩
      | parked next ticket wakeAt => exact ⟨hnext next hleads, hstanding⟩
      | panics text => exact ⟨nofun, hstanding⟩
  | @polls wait wait' previous base hcontrol hstack =>
      have hsettles : ∀ w : World,
          (w.startPoll (.polled wait :: base) wait.thread).Settles none w :=
        fun w => w.settles_startPoll wait.thread (hposed.ready_polled hcontrol hstack)
      exact (hsettles _).poised
  | returns hcontrol hstack => exact ⟨nofun, (hposed.below hstack).standing⟩
  | fails hcontrol hstack =>
      refine ⟨fun hraw => ?_, (hposed.below hstack).standing⟩
      have hcontrol' := hposed.control
      rw [hcontrol, hstack] at hcontrol'
      obtain ⟨running, base, htop | htop⟩ := hcontrol' hraw <;> cases htop

namespace Machine

variable {m : Machine} {me : Nat} {e : Executor}

def Poised (m : Machine) : Prop :=
  ∀ (i : Nat) (x : Executor), m.executors[i]? = some x → x.Poised

private theorem rests_perform {op : Op} (hcontrol : e.control = .perform op)
    (hposed : e.Poised) :
    m.perform me e op = m ∨
      (∃ current task, m.perform me e op = m.put me current task ∧ e.Rests m.world task) ∨
      ∃ name threadName body, op = .call (.spawn name threadName body) := by
  obtain ⟨running, base, hstack⟩ : ∃ running base, e.stack = .step running :: base := by
    have hcontrol' := hposed.control
    rw [hcontrol] at hcontrol'
    exact hcontrol'
  have hfree : isBlocking e.stack = false := by
    rw [hstack]
    rfl
  have hready : Ready (.step running :: base) := hstack ▸ hposed.ready hfree
  have hput : ∀ {current : Option ThreadId} {task : Task},
      m.perform me e op = m.put me current task → task.Settles e.ended? m.world →
      ∃ current task, m.perform me e op = m.put me current task ∧ e.Rests m.world task :=
    fun hstep h => ⟨_, _, hstep, .settles hfree h⟩
  have hreply : ∀ {current : Option ThreadId} {reply : Reply},
      m.perform me e op = m.put me current (afterReply e.stack reply) →
      m.world.SameStatus e.ended? reply.world →
      ∃ current task, m.perform me e op = m.put me current task ∧ e.Rests m.world task := by
    intro current reply hstep hsame
    rw [hstack] at hstep
    exact hput hstep (settles_afterReply m.world hsame hready)
  cases op with
  | thread op =>
      refine .inr (.inl (hreply rfl ?_))
      have hsame := op.sameStatus_perform ⟨me, e.current, m.held⟩ m.world
      rw [Executor.ended?, hcontrol]
      cases op <;> exact hsame
  | mutex op =>
      simp only [perform] at hput ⊢
      split
      · exact .inl rfl
      · next hwait =>
        refine .inr (.inl ⟨_, _, rfl, .settles hfree ?_⟩)
        rw [hstack]
        exact op.settles_start m.world hready
  | queue op => exact .inr (.inl (hreply rfl (op.sameStatus_perform m.world).of_none))
  | object op => exact .inr (.inl (hreply rfl (.of_sync_eq (op.aside_perform m.world).1)))
  | space op => exact .inr (.inl (hreply rfl (.of_sync_eq (op.aside_perform _ m.world).1)))
  | weak op => exact .inr (.inl (hreply rfl (.of_sync_eq (op.aside_perform _ m.world).1)))
  | stack op => exact .inr (.inl (hreply rfl (op.quiet_perform m.world).sameStatus.of_none))
  | call op =>
      have hstart : ∀ held, (op.start held m.world e.stack).Settles e.ended? m.world := by
        intro held
        rw [hstack]
        exact op.settles_start m.world held hready
      cases op with
      | spawn name threadName body => exact .inr (.inr ⟨name, threadName, body, rfl⟩)
      | join name =>
          right
          left
          simp only [perform]
          split
          · refine ⟨_, _, rfl, .settles hfree (.goes (.refl _) hfree (hposed.ready hfree))⟩
          · exact ⟨_, _, rfl, .settles hfree (settles_give (hposed.ready hfree) rfl)⟩
      | _ => exact .inr (.inl (hput rfl (hstart _)))

/-- A step leaves the machine as it is, brings the executor to a task, or spawns a thread. -/
theorem rests_step (he : m.executors[me]? = some e) (hposed : e.Poised) :
    m.step me = m ∨
      (∃ current task, m.step me = m.put me current task ∧ e.Rests m.world task) ∨
      ∃ name threadName body, e.control = .perform (.call (.spawn name threadName body)) ∧
        m.step me = m.spawn me e name threadName body := by
  have hdraw : m.world.SameStatus none m.world.drawTicket.2 :=
    Sync.SameStatus.of_thread fun _ => rfl
  have hcontrol' := hposed.control
  have hdoes := does he
  generalize m.step me = m' at hdoes ⊢
  cases hdoes with
  | idles hcontrol => exact .inl rfl
  | performs hcontrol =>
      rcases rests_perform hcontrol hposed with h | h | ⟨name, threadName, body, rfl⟩
      · exact .inl h
      · exact .inr (.inl h)
      · exact .inr (.inr ⟨name, threadName, body, hcontrol, rfl⟩)
  | @attempts wait hcontrol =>
      refine .inr (.inl ⟨_, _, rfl, .enters (.inl hcontrol) ?_
        (wait.leads_attempt _ _) (shape_noteAttempt m.world wait e.stack)⟩)
      exact hdraw.trans (wait.sameStatus_attempt _ _)
  | @resumes wait old wakeAt hcontrol =>
      refine .inr (.inl ⟨_, _, rfl, .enters (.inr ⟨old, wakeAt, hcontrol⟩) ?_
        (wait.leads_resume _ _ old) rfl⟩)
      exact hdraw.trans (wait.sameStatus_resume _ _ _)
  | releases hcontrol =>
      rw [hcontrol] at hcontrol'
      refine .inr (.inl ⟨_, _, rfl, .settles hcontrol' ?_⟩)
      exact m.world.settles_release _ _ (hposed.ready hcontrol')
  | polls hcontrol hstack => exact .inr (.inl ⟨_, _, rfl, .polls hcontrol hstack⟩)
  | refuses hcontrol hstack =>
      rw [hcontrol] at hcontrol'
      obtain ⟨running, base, hrunning⟩ := hcontrol'.resolve_left fun ⟨wait, previous, base, h, _⟩ =>
        hstack wait previous base h
      have hfree : isBlocking e.stack = false := by
        rw [hrunning]
        rfl
      refine .inr (.inl ⟨_, _, rfl, .settles hfree ?_⟩)
      exact .goes (.refl _) (fun _ => ⟨running, base, .inr hrunning⟩) (hposed.ready hfree)
  | continues hcontrol =>
      rw [hcontrol] at hcontrol'
      refine .inr (.inl ⟨_, _, rfl, .settles hcontrol' ?_⟩)
      exact settles_continueWait m.world me _ _ (hposed.ready hcontrol')
  | learns hcontrol =>
      have hfree : isBlocking e.stack = false := by
        rcases hcontrol with ⟨what, hcontrol⟩ | ⟨target, hcontrol⟩ <;>
          rw [hcontrol] at hcontrol' <;> exact hcontrol'
      exact .inr (.inl ⟨_, _, rfl, .settles hfree (settles_give (hposed.ready hfree) rfl)⟩)
  | @receives outcome frame base hcontrol hstack =>
      by_cases hblocking : isBlocking e.stack
      · rw [hstack] at hblocking
        obtain ⟨wait, previous, rfl⟩ : ∃ wait previous, frame = .blocking wait previous := by
          cases frame <;> first | exact ⟨_, _, rfl⟩ | cases hblocking
        cases outcome with
        | ok y => exact .inr (.inl ⟨_, _, rfl, .returns hcontrol hstack⟩)
        | error failure => exact .inr (.inl ⟨_, _, rfl, .fails hcontrol hstack⟩)
      · have hfree : isBlocking e.stack = false := by simpa using hblocking
        refine .inr (.inl ⟨_, _, rfl, .settles hfree ?_⟩)
        rw [hcontrol, hstack] at hcontrol'
        exact Frame.settles_receive m.world hcontrol' (hstack ▸ hposed.ready hfree)
  | finishes hcontrol hstack =>
      have hfree : isBlocking e.stack = false := by
        rw [hstack]
        rfl
      refine .inr (.inl ⟨_, _, rfl, .settles hfree ?_⟩)
      exact .goes (.refl _) trivial ⟨trivial, rfl⟩
  | @answers report failure hcontrol =>
      rw [hcontrol] at hcontrol'
      refine .inr (.inl ⟨_, _, rfl, .settles hcontrol' ?_⟩)
      refine settles_receiveAnswer m.world m.watched m.held report failure
        (hposed.ready hcontrol') ?_
      intro run base hstack
      simp [Executor.ended?, hcontrol, hstack]

theorem Poised.put (h : m.Poised) {current : Option ThreadId} {task : Task}
    (htask : task.control.Poised task.stack ∧ Standing task.stack) :
    (m.put me current task).Poised := by
  intro i x hx
  rw [Machine.put, List.getElem?_set] at hx
  split at hx
  · split at hx
    · cases hx
      exact ⟨htask.1, htask.2⟩
    · cases hx
  · exact h i x hx

private theorem Poised.spawn (h : m.Poised) (he : m.executors[me]? = some e) (name : String)
    (threadName : Option String) (body : Body) : (m.spawn me e name threadName body).Poised := by
  have hstanding := (h me e he).standing
  have hput : ∀ (w : World) (y : Yield), (m.put me e.current (w.give e.stack y)).Poised :=
    fun w y => h.put ⟨nofun, hstanding⟩
  unfold Machine.spawn
  split
  · exact h.put ⟨nofun, hstanding⟩
  · intro i x hx
    rcases List.mem_append.mp (List.mem_of_getElem? hx) with hold | hnew
    · obtain ⟨j, hj⟩ := List.mem_iff_getElem?.mp hold
      exact hput _ .unit j x hj
    · rw [List.mem_singleton.mp hnew]
      have hempty : Ready [] := ⟨trivial, rfl⟩
      obtain ⟨hcontrol, hstanding⟩ := (BodyRun.settles_proceed _
        ⟨.thread _, body.steps, [], body.ending⟩ hempty fun _ => rfl).poised
      exact ⟨hcontrol, hstanding⟩

theorem Poised.step (h : m.Poised) (me : Nat) : (m.step me).Poised := by
  cases he : m.executors[me]? with
  | none =>
      have hsame : m.step me = m := by simp [Machine.step, he]
      rw [hsame]
      exact h
  | some e =>
      rcases rests_step he (h me e he) with hsame | ⟨current, task, hstep, hrests⟩ |
        ⟨name, threadName, body, hcontrol, hstep⟩
      · rw [hsame]
        exact h
      · rw [hstep]
        exact h.put (hrests.poised (h me e he))
      · rw [hstep]
        exact h.spawn he name threadName body

theorem Poised.follow (script : Script) (moves : List Move) :
    (script.start.follow moves).Poised := by
  refine follow_always moves (fun m me h => h.step me) (fun m millis h => h) ?_
  intro i x hx
  have hmem := List.mem_of_getElem? hx
  rw [Script.start, List.mem_singleton] at hmem
  rw [hmem]
  simp only [nextStep]
  split
  · exact ⟨trivial, trivial⟩
  · exact ⟨⟨_, _, rfl⟩, trivial, rfl, rfl, rfl, trivial⟩

end Machine

end RubyRuntime.Session
