import RubyRuntime.Proofs.Session.Bystanders

/-!
# Calls that begin on a stack

Most calls only put ordinary frames on the stack that they begin on, report events to it, and leave
synchronisation alone: polls, bodies, finalizer runs, iterations, sleeps and calls on queues. The
frames that are not ordinary belong to the taking of a mutex or stand at the bottom of a stack.
-/
namespace RubyRuntime

def WaitPhase.isInside : WaitPhase → Bool
  | releasing | registering _ | checking _ | awake _ | leaving _ _ => true
  | entering | parked _ _ | polling _ | returning _ _ | relocking _ _ => false

namespace Session

/-- A frame without what it has been reported. -/
def Frame.shape : Frame → Frame
  | .step running => .step { strict := running.strict }
  | frame => frame

/-- The lock that a frame has to record for a thread once it is taken. -/
def Frame.seat? : Frame → Option (ThreadId × LockId)
  | .acquiring t l | .relocking t l _ _ => some (t, l)
  | _ => none

/-- The lock that a frame waits for on behalf of the frame below it. -/
def Frame.quest? : Frame → Option (ThreadId × LockId)
  | .blocking (.acquire t l) _ | .polled (.acquire t l) => some (t, l)
  | _ => none

/-- The lock that has been taken, but not recorded, when a result is given to the frame. -/
def Frame.due? : Frame → Option (ThreadId × LockId)
  | .acquiring t l | .relocking t l _ _ | .blocking (.acquire t l) _ => some (t, l)
  | _ => none

def Frame.isBottom : Frame → Bool
  | .session _ _ => true
  | .body run =>
    match run.kind with
    | .thread _ => true
    | _ => false
  | _ => false

def Frame.isInner (frame : Frame) : Bool :=
  !frame.isBottom

def Frame.isOrdinary (frame : Frame) : Bool :=
  frame.isInner && frame.seat?.isNone && frame.quest?.isNone

/-- Whether an executor is neither about to take or release a lock nor inside a critical section. -/
def Control.isOrdinary : Control → Bool
  | .attempt (.acquire _ _) | .parked (.acquire _ _) _ _ | .interrupted (.acquire _ _) => false
  | .releasing _ _ => false
  | .condition _ phase _ => !phase.isInside
  | _ => true

def Wait.isOrdinary : Wait → Bool
  | .acquire _ _ => false
  | _ => true

theorem shape_updateRunning {f : Running → Running} (hf : ∀ running, (f running).strict =
    running.strict) (stack : List Frame) :
    (updateRunning f stack).map Frame.shape = stack.map Frame.shape := by
  induction stack with
  | nil => rfl
  | cons frame stack ih =>
      cases frame with
      | step running => simp [updateRunning, Frame.shape, hf]
      | _ => simp [updateRunning, ih]

theorem shape_reportEvent (event : Report) (stack : List Frame) :
    (reportEvent event stack).map Frame.shape = stack.map Frame.shape := by
  apply shape_updateRunning
  intro running
  rfl

@[simp] theorem Frame.seat?_shape (frame : Frame) : frame.shape.seat? = frame.seat? := by
  cases frame <;> rfl

@[simp] theorem Frame.quest?_shape (frame : Frame) : frame.shape.quest? = frame.quest? := by
  cases frame <;> rfl

@[simp] theorem Frame.due?_shape (frame : Frame) : frame.shape.due? = frame.due? := by
  cases frame <;> rfl

@[simp] theorem Frame.isInner_shape (frame : Frame) : frame.shape.isInner = frame.isInner := by
  cases frame <;> rfl

@[simp] theorem Frame.isOrdinary_shape (frame : Frame) :
    frame.shape.isOrdinary = frame.isOrdinary := by
  simp [Frame.isOrdinary]

theorem Frame.isInner_of_isOrdinary {frame : Frame} (h : frame.isOrdinary) : frame.isInner := by
  simp only [Frame.isOrdinary, Bool.and_eq_true] at h
  exact h.1.1

/-- The stack is `base`, to which events may have been reported, below frames of a kind. -/
def Extends (kind : Frame → Bool) (stack base : List Frame) : Prop :=
  ∃ above below, stack = above ++ below ∧ below.map Frame.shape = base.map Frame.shape ∧
    ∀ frame ∈ above, kind frame

namespace Extends

variable {kind kind' : Frame → Bool} {stack base base' : List Frame} {frame : Frame}

theorem of_shape (h : stack.map Frame.shape = base.map Frame.shape) : Extends kind stack base :=
  ⟨[], stack, rfl, h, by simp⟩

theorem refl (stack : List Frame) : Extends kind stack stack :=
  of_shape rfl

theorem push (h : Extends kind stack base) (hframe : kind frame) :
    Extends kind (frame :: stack) base := by
  obtain ⟨above, below, rfl, hbelow, habove⟩ := h
  refine ⟨frame :: above, below, rfl, hbelow, ?_⟩
  intro f hf
  rcases List.mem_cons.mp hf with rfl | hf
  · exact hframe
  · exact habove f hf

theorem on_shape (h : Extends kind stack base) (hbase : base.map Frame.shape =
    base'.map Frame.shape) : Extends kind stack base' := by
  obtain ⟨above, below, hstack, hbelow, habove⟩ := h
  exact ⟨above, below, hstack, hbelow.trans hbase, habove⟩

theorem mono (h : Extends kind stack base) (hkind : ∀ f, kind f → kind' f) :
    Extends kind' stack base := by
  obtain ⟨above, below, hstack, hbelow, habove⟩ := h
  exact ⟨above, below, hstack, hbelow, fun f hf => hkind f (habove f hf)⟩

theorem under (h : Extends kind stack (frame :: base)) (hshape : ∀ f, kind f.shape = kind f)
    (hframe : kind frame) : Extends kind stack base := by
  obtain ⟨above, below, rfl, hbelow, habove⟩ := h
  cases below with
  | nil => simp at hbelow
  | cons first below =>
      simp only [List.map_cons, List.cons.injEq] at hbelow
      refine ⟨above ++ [first], below, by simp, hbelow.2, ?_⟩
      intro f hf
      rcases List.mem_append.mp hf with hf | hf
      · exact habove f hf
      · -- The kind of a frame does not depend on what it has been reported.
        rw [List.mem_singleton.mp hf, ← hshape first, hbelow.1, hshape frame]
        exact hframe

theorem drop {above : List Frame} (h : Extends kind stack (above ++ base))
    (hshape : ∀ f, kind f.shape = kind f) (habove : ∀ f ∈ above, kind f) :
    Extends kind stack base := by
  induction above with
  | nil => exact h
  | cons frame above ih =>
      exact ih (h.under hshape (habove frame List.mem_cons_self))
        fun f hf => habove f (List.mem_cons_of_mem _ hf)

end Extends

/-- The task has begun in world `w` on `stack`: it stands on that stack, above which there are only
ordinary frames, and has not touched what synchronisation depends on. -/
structure Task.Launched (task : Task) (w : World) (stack : List Frame) : Prop where
  alike : w.Alike task.world
  control : task.control.isOrdinary
  stands : Extends Frame.isOrdinary task.stack stack

namespace Task.Launched

variable {task : Task} {w w' : World} {stack stack' : List Frame}

theorem flat (halike : w.Alike task.world) (hcontrol : task.control.isOrdinary)
    (hstack : task.stack.map Frame.shape = stack.map Frame.shape) : task.Launched w stack :=
  ⟨halike, hcontrol, .of_shape hstack⟩

theorem of_alike (h : task.Launched w' stack) (halike : w.Alike w') : task.Launched w stack :=
  ⟨halike.trans h.alike, h.control, h.stands⟩

theorem of_shape (h : task.Launched w stack') (hshape : stack'.map Frame.shape =
    stack.map Frame.shape) : task.Launched w stack :=
  ⟨h.alike, h.control, h.stands.on_shape hshape⟩

theorem under {frame : Frame} (h : task.Launched w (frame :: stack))
    (hframe : frame.isOrdinary) : task.Launched w stack :=
  ⟨h.alike, h.control, h.stands.under Frame.isOrdinary_shape hframe⟩

end Task.Launched

namespace World

variable (w : World) (stack : List Frame)

theorem launched_give (y : Yield) : (w.give stack y).Launched w stack :=
  .flat (.refl w) rfl rfl

theorem launched_giveFailure (failure : Failure) : (w.giveFailure stack failure).Launched w stack :=
  .flat (.refl w) rfl rfl

theorem launched_giveError (e : Error) : (w.giveError stack e).Launched w stack :=
  .flat (.refl w) rfl rfl

theorem launched_startBlocking {wait : Wait} (h : wait.isOrdinary) :
    (w.startBlocking stack wait).Launched w stack := by
  refine ⟨alike_updateThread w _ fun _ => rfl, ?_, (Extends.refl stack).push ?_⟩
  · cases wait <;> first | rfl | cases h
  · cases wait <;> first | rfl | cases h

theorem alike_cutStack (t : ThreadId) (depth : Option Nat) : w.Alike (w.cutStack t depth) := by
  cases depth with
  | none => exact .refl w
  | some depth => exact alike_updateThread w t fun _ => rfl

end World

namespace BodyRun

variable (run : BodyRun) (w : World) (stack : List Frame)

/-- A body of anything but a thread only gives its outcome when it ends. -/
theorem launched_conclude (failure : Option Error) (h : (Frame.body run).isOrdinary) :
    (run.conclude failure w stack).Launched w stack := by
  unfold conclude
  dsimp only
  split
  · exact .flat (.refl w) rfl (shape_reportEvent _ _)
  · next t hkind => simp [Frame.isOrdinary, Frame.isInner, Frame.isBottom, hkind] at h
  · refine .flat (.refl w) rfl ?_
    dsimp only
    split
    · exact shape_reportEvent _ _
    · rfl
  · split
    · exact (World.launched_giveFailure _ _ _).of_alike (World.alike_cutStack w _ _)
    · exact (World.launched_give _ _ _).of_alike (World.alike_cutStack w _ _)

theorem launched_proceed (h : (Frame.body run).isOrdinary) :
    (run.proceed w stack).Launched w stack := by
  unfold proceed
  split
  · exact run.launched_conclude w stack none h
  · next step rest hremaining =>
    refine ⟨.refl w, rfl, ((Extends.refl stack).push ?_).push rfl⟩
    exact h

end BodyRun

namespace World

variable (w : World) (stack : List Frame)

theorem launched_startBody {kind : BodyKind} (body : Body)
    (h : ∀ t, kind ≠ .thread t) : (w.startBody stack kind body).Launched w stack := by
  apply BodyRun.launched_proceed
  cases kind with
  | thread t => exact absurd rfl (h t)
  | _ => rfl

theorem launched_nextAction (t : ThreadId) : (w.nextAction stack t).Launched w stack := by
  have hpop : w.Alike (w.updateThread t fun _ => (w.thread t).popAction.2) :=
    alike_replaceThread w t rfl
  unfold nextAction
  dsimp only
  split
  · have hcounted : ∀ w : World, w.Alike (w.updateSync fun s =>
        { s with safepoints := s.safepoints + 1 }) :=
      fun w => Sync.Alike.of_eq rfl rfl rfl
    exact (launched_give _ _ _).of_alike (hpop.trans (hcounted _))
  · exact ((launched_startBody _ _ _ (by simp)).under rfl).of_alike hpop
  · exact ((launched_giveError _ _ _).under rfl).of_alike hpop
  · exact ((launched_giveError _ _ _).under rfl).of_alike hpop

theorem launched_startPoll (t : ThreadId) : (w.startPoll stack t).Launched w stack := by
  unfold startPoll
  split
  · exact launched_nextAction w stack t
  · exact launched_give w stack _

theorem launched_startSleep (t : ThreadId) (timeout : Timeout) :
    (w.startSleep stack t timeout).Launched w stack :=
  (launched_startBlocking w _ rfl).under rfl

theorem launched_startWait (t : ThreadId) (l : LockId) (c : ConditionId) (timeout : Timeout) :
    (w.startWait stack t l c timeout).Launched w stack := by
  unfold startWait
  split
  · exact launched_giveError w stack _
  · exact .flat (alike_updateThread w t fun _ => rfl) rfl rfl

theorem launched_nextFinalizer (calls : List (Nat × Finalizer)) (ran : Nat) :
    (w.nextFinalizer stack calls ran).Launched w stack := by
  cases calls with
  | nil => exact launched_give w stack _
  | cons call rest => exact (launched_startBody w _ _ (by simp)).under rfl

theorem launched_startFinalizers (held : List ObjectRef) (run : FinalizerRun) :
    (w.startFinalizers held stack run).Launched w stack :=
  (launched_nextFinalizer _ stack _ _).of_alike (.of_sync_eq rfl)

theorem launched_nextItem (iteration : Iteration) :
    (w.nextItem stack iteration).Launched w stack := by
  unfold nextItem
  split
  · exact .flat (.refl w) rfl (shape_reportEvent _ _)
  · exact (BodyRun.launched_proceed _ w _ rfl).under rfl

theorem launched_startEach (held : List ObjectRef) (wm : String) (what : Yielded)
    (block : Option (Block Step)) : (w.startEach held stack wm what block).Launched w stack := by
  have hnamed : w.Alike (((w.weakMapNamed wm).2.weakPairs held (w.weakMapNamed wm).1).2) :=
    .of_sync_eq (sync_weakMapNamed w wm)
  cases block with
  | some block => exact (launched_nextItem _ stack _).of_alike hnamed
  | none =>
      unfold startEach
      dsimp only
      generalize List.map _ _ = items
      split
      · exact .flat hnamed rfl (shape_reportEvent _ _)
      · exact .flat hnamed rfl (shape_reportEvent _ _)

end World

end Session

end RubyRuntime
