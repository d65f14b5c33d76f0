import RubyRuntime.Proofs.Session.Marks

/-!
# Absences

A thread that waits on a condition gives up its mutex and has to take it again, and so does one that
sleeps outside a mutex. While it runs safepoint actions before it is back, its executor is busy with
them, and the absence is left on the stack. `Machine.absenceStep` says what a step does to the
absences of an executor: only the innermost of them, which comes first, ever changes.
-/
namespace RubyRuntime

def WaitPhase.isOwn : WaitPhase → Bool
  | polling _ | relocking _ _ => false
  | _ => true

namespace Session

/-- Something that a thread has not come back from. -/
inductive Absence where
  | waiting (wait : ConditionWait) (phase : WaitPhase)
  | relocking (t : ThreadId) (l : LockId) (holds : UInt32)

/-- The absence that a frame stands for. A wait whose frame is on the stack is polling. -/
def Frame.absence? : Frame → Option Absence
  | .waitPolled wait holds => some (.waiting wait (.polling holds))
  | .relocking t l holds _ => some (.relocking t l holds)
  | _ => none

def Control.absence? : Control → Option Absence
  | .condition wait phase _ => some (.waiting wait phase)
  | _ => none

def absencesOn (stack : List Frame) : List Absence :=
  stack.filterMap Frame.absence?

def Task.absences (task : Task) : List Absence :=
  task.control.absence?.toList ++ absencesOn task.stack

def Executor.absences (e : Executor) : List Absence :=
  e.control.absence?.toList ++ absencesOn e.stack

/-- The thread and the mutex of a step that takes the mutex without asking who holds it. -/
def Op.forced? : Op → Option (String × String)
  | .call (.lockInternal t m) | .call (.lockEven t m _) => some (t, m)
  | _ => none

def Executor.forced? (w : World) (e : Executor) : Option LockId :=
  match e.control with
  | .perform op => op.forced?.map fun names => (w.threadAndLock names.1 names.2).2.1
  | _ => none

theorem absencesOn_of_shape {stack stack' : List Frame}
    (h : stack.map Frame.shape = stack'.map Frame.shape) :
    absencesOn stack = absencesOn stack' := by
  have hshape : ∀ stack : List Frame,
      (stack.map Frame.shape).filterMap Frame.absence? = absencesOn stack := by
    intro stack
    rw [List.filterMap_map]
    congr
    funext frame
    cases frame <;> rfl
  rw [← hshape, h, hshape]

theorem absencesOn_reportEvent (event : Report) (stack : List Frame) :
    absencesOn (reportEvent event stack) = absencesOn stack :=
  absencesOn_of_shape (shape_reportEvent event stack)

namespace BodyRun

variable (run : BodyRun) (w : World) (stack : List Frame)

theorem absences_conclude (failure : Option Error) :
    (run.conclude failure w stack).absences = absencesOn stack ∨
      run.kind.thread?.isSome ∧ (run.conclude failure w stack).absences = [] := by
  unfold conclude
  dsimp only
  split
  · exact .inl (absencesOn_reportEvent _ stack)
  · next t hkind => exact .inr ⟨by simp [hkind, BodyKind.thread?], rfl⟩
  · refine .inl ?_
    dsimp only [Task.absences]
    split
    · exact absencesOn_reportEvent _ stack
    · rfl
  · split <;> exact .inl rfl

theorem absences_proceed :
    (run.proceed w stack).absences = absencesOn stack ∨
      run.kind.thread?.isSome ∧ (run.proceed w stack).absences = [] := by
  unfold proceed
  split
  · exact run.absences_conclude w stack none
  · exact .inl rfl

/-- A callback, a block or steps inside stack frames are within what is going on already. -/
theorem absences_proceed_of_inner (h : run.kind.thread? = none) :
    (run.proceed w stack).absences = absencesOn stack := by
  rcases run.absences_proceed w stack with hsame | ⟨hthread, -⟩
  · exact hsame
  · simp [h] at hthread

end BodyRun

namespace World

variable (w : World) (stack : List Frame) (t : ThreadId) (l : LockId)

theorem absences_nextAction : (w.nextAction stack t).absences = absencesOn stack := by
  unfold nextAction
  dsimp only
  split
  · rfl
  · exact BodyRun.absences_proceed_of_inner _ _ _ rfl
  · rfl
  · rfl

theorem absences_startPoll : (w.startPoll stack t).absences = absencesOn stack := by
  unfold startPoll
  split
  · exact absences_nextAction w stack t
  · rfl

theorem absences_recordAnd (outcome : Outcome) :
    (w.recordAnd stack t l outcome).absences = absencesOn stack := by
  unfold recordAnd
  split <;> rfl

theorem absences_startAcquire (due : Frame) :
    (w.startAcquire stack t l due).absences = absencesOn (due :: stack) ∨
      (w.startAcquire stack t l due).absences = absencesOn stack := by
  unfold startAcquire
  split
  · exact .inl rfl
  · exact .inl rfl
  · exact .inr rfl

theorem absences_startLock : (w.startLock stack t l).absences = absencesOn stack := by
  rcases absences_startAcquire w stack t l (.acquiring t l) with h | h <;> exact h

theorem absences_startMutex : (w.startMutex stack t l).absences = absencesOn stack := by
  unfold startMutex
  split
  · rfl
  · exact absences_startLock w stack t l

theorem absences_startTryLock : (w.startTryLock stack t l).absences = absencesOn stack := by
  unfold startTryLock
  split
  · rfl
  · split <;> rfl

theorem absences_startUnlock : (w.startUnlock stack t l).absences = absencesOn stack := by
  unfold startUnlock
  split <;> rfl

theorem absences_release : (w.release stack t l).absences = absencesOn stack := by
  unfold release
  split <;> rfl

theorem absences_startMutexSleep (timeout : Timeout) :
    (w.startMutexSleep stack t l timeout).absences = absencesOn stack := by
  unfold startMutexSleep
  split <;> rfl

theorem absences_guardOver (guard : GuardKind) (outcome : Outcome) :
    (w.guardOver stack t l guard outcome).absences = absencesOn stack := by
  unfold guardOver
  split
  · exact absences_startUnlock w _ t l
  · exact absences_startUnlock w _ t l
  · split <;> rfl

theorem absences_nextFinalizer (calls : List (Nat × Finalizer)) (ran : Nat) :
    (w.nextFinalizer stack calls ran).absences = absencesOn stack := by
  cases calls with
  | nil => rfl
  | cons call rest => exact BodyRun.absences_proceed_of_inner _ _ _ rfl

theorem absences_nextItem (iteration : Iteration) :
    (w.nextItem stack iteration).absences = absencesOn stack := by
  unfold nextItem
  split
  · exact absencesOn_reportEvent _ stack
  · exact BodyRun.absences_proceed_of_inner _ _ _ rfl

theorem absences_startEach (held : List ObjectRef) (wm : String) (what : Yielded)
    (block : Option (Block Step)) :
    (w.startEach held stack wm what block).absences = absencesOn stack := by
  cases block with
  | some block => exact absences_nextItem _ stack _
  | none =>
      unfold startEach
      dsimp only
      generalize List.map _ _ = items
      split <;> exact absencesOn_reportEvent _ stack

theorem absences_callBounded (s : String) {f : Nat → Task}
    (hf : ∀ q, (f q).absences = absencesOn stack) :
    (w.callBounded stack s f).absences = absencesOn stack := by
  unfold callBounded
  split
  · exact hf _
  · rfl

end World

/-- What a step does to the absences of an executor if it is no step of a condition wait. A mutex is
taken again with one hold after a sleep, and with any number of holds if it is forced. -/
inductive Executor.Turns (w : World) (e : Executor) : List Absence → List Absence → Prop where
  | keeps (rest : List Absence) : Turns w e rest rest
  | begins (wait : ConditionWait) (rest : List Absence) :
    Turns w e rest (.waiting wait .entering :: rest)
  | returns (wait : ConditionWait) (holds : UInt32) (failure : Option Error)
    (rest : List Absence) :
    Turns w e (.waiting wait (.polling holds) :: rest)
      (.waiting wait (.returning holds failure) :: rest)
  | relocks (wait : ConditionWait) (holds : UInt32) (result : Except Error WaitOutcome)
    (rest : List Absence) :
    Turns w e (.waiting wait (.relocking holds result) :: rest)
      (.relocking wait.thread wait.lock holds :: rest)
  | takes (t : ThreadId) (l : LockId) (holds : UInt32) (rest : List Absence)
    (hholds : holds = 1 ∨ e.forced? w = some l) : Turns w e rest (.relocking t l holds :: rest)
  | drops (absence : Absence) (rest : List Absence) : Turns w e (absence :: rest) rest
  | ends (rest : List Absence) : Turns w e rest []

variable {w : World} {e : Executor}

theorem Executor.Turns.of_eq {before after : List Absence} (h : after = before) :
    e.Turns w before after := by
  rw [h]
  exact .keeps before

theorem World.turns_startWait (w' : World) (stack : List Frame) (t : ThreadId) (l : LockId)
    (c : ConditionId) (timeout : Timeout) :
    e.Turns w (absencesOn stack) (w'.startWait stack t l c timeout).absences := by
  unfold startWait
  split
  · exact .keeps _
  · exact .begins _ _

theorem World.turns_startRelock (w' : World) (stack : List Frame) {t : ThreadId} {l : LockId}
    {holds : UInt32} (hholds : holds = 1 ∨ e.forced? w = some l) :
    e.Turns w (absencesOn stack) (w'.startRelock stack t l holds).absences := by
  rcases absences_startAcquire w' stack t l (.relocking t l holds none) with hnew | hsame
  · rw [startRelock, hnew]
    exact .takes t l holds _ hholds
  · exact .of_eq hsame

theorem MutexOp.absences_start (op : MutexOp) (w : World) (stack : List Frame) :
    (op.start w stack).absences = absencesOn stack := by
  cases op with
  | unlock t m => exact World.absences_startUnlock _ _ _ _
  | tryLock t m => exact World.absences_startTryLock _ _ _ _
  | unlockInternal t m => exact World.absences_release _ _ _ _
  | checkOwned t m | rawTry t m | rawUnlock t m =>
      dsimp only [MutexOp.start]
      split <;> rfl
  | _ => rfl

theorem CallOp.turns_start {op : CallOp Body Step} (held : List ObjectRef)
    (hcontrol : e.control = .perform (.call op)) :
    e.Turns w (absencesOn e.stack) (op.start held w e.stack).absences := by
  cases op with
  | wait t m cv timeout =>
      exact World.turns_startWait _ (.showing .waited :: e.stack) _ _ _ timeout
  | lockEven t m holds =>
      have hforced : e.forced? w = some (w.threadAndLock t m).2.1 := by
        simp [Executor.forced?, hcontrol, Op.forced?]
      exact World.turns_startRelock _ (.showing .null :: e.stack) (.inr hforced)
  | poll name => exact .of_eq (World.absences_startPoll _ _ _)
  | lock t m => exact .of_eq (World.absences_startMutex _ _ _ _)
  | lockInternal t m => exact .of_eq (World.absences_startLock _ _ _ _)
  | mutexSleep t m timeout => exact .of_eq (World.absences_startMutexSleep _ _ _ _ timeout)
  | synchronize t m body | guarded t m body unlock =>
      exact .of_eq (World.absences_startMutex _ _ _ _)
  | boundedPut t s v | boundedTake t s | boundedPollTimeout t s timeout | boundedPush t s v
  | boundedPop t s | boundedPopTimeout t s timeout =>
      exact .of_eq (World.absences_callBounded _ _ _ fun q => rfl)
  | finalize run => exact .of_eq (World.absences_nextFinalizer _ _ _ _)
  | each wm what block => exact .of_eq (World.absences_startEach _ _ held wm what block)
  | frame name frames steps forget =>
      exact .of_eq (BodyRun.absences_proceed_of_inner _ _ _ rfl)
  | _ => exact .keeps _

theorem absences_afterReply (stack : List Frame) (reply : Reply) :
    (afterReply stack reply).absences = absencesOn stack := by
  have hevents : ∀ (events : List Report) (stack : List Frame),
      absencesOn (events.foldl (fun stack event => reportEvent event stack) stack) =
        absencesOn stack := by
    intro events
    induction events with
    | nil => exact fun _ => rfl
    | cons event events ih =>
        intro stack
        rw [List.foldl_cons, ih, absencesOn_reportEvent]
  exact hevents reply.events stack

theorem absences_afterAttempt (stack : List Frame) (w : World) (progress : Progress) :
    (afterAttempt stack w progress).absences = absencesOn stack := by
  cases progress <;> rfl

theorem turns_receiveAnswer (watched : List Watched) (held : List ObjectRef) (stack : List Frame)
    (report : Report) (failure : Option Error) :
    e.Turns w (absencesOn stack) (receiveAnswer watched held w stack report failure).absences := by
  unfold receiveAnswer
  split
  · next run stack =>
    have hbody : ∀ {task : Task}, task.absences = absencesOn stack ∨
        run.kind.thread?.isSome ∧ task.absences = [] →
        e.Turns w (absencesOn (.body run :: stack)) task.absences := by
      rintro task (hsame | ⟨-, hempty⟩)
      · exact .of_eq hsame
      · rw [hempty]
        exact .ends _
    cases failure with
    | some err => exact hbody (BodyRun.absences_conclude _ w stack (some err))
    | none => exact hbody (BodyRun.absences_proceed _ w stack)
  · dsimp only [nextStep]
    split <;> exact .ends _
  · exact .keeps _

theorem Frame.turns_receive (frame : Frame) (stack : List Frame) (outcome : Outcome) :
    e.Turns w (absencesOn (frame :: stack)) (frame.receive w stack outcome).absences := by
  cases frame with
  | waitPolled wait holds =>
      rcases outcome with (err | _ | _ | _) | y
      · exact .returns wait holds _ _
      · exact .drops _ _
      · exact .drops _ _
      · exact .drops _ _
      · exact .returns wait holds _ _
  | relocking t l holds pending =>
      rcases outcome with (err | _ | _ | _) | y
      · exact .keeps _
      · exact .drops _ _
      · exact .drops _ _
      · exact .drops _ _
      · have hsame := World.absences_recordAnd
          (w.updateSync (·.updateLock l (·.setHoldCount t holds))) stack t l
        simp only [Frame.receive, World.relocked, hsame]
        exact .drops _ _
  | sleeping t l =>
      rcases outcome with (err | _ | _ | _) | y
      · exact World.turns_startRelock w (.sleepOver (.error err) :: stack) (.inl rfl)
      · exact .keeps _
      · exact .keeps _
      · exact .keeps _
      · cases y with
        | elapsed millis =>
            exact World.turns_startRelock w (.sleepOver (.ok millis) :: stack) (.inl rfl)
        | _ => exact .keeps _
  | blocking wait previous => cases outcome <;> exact .keeps _
  | polled wait =>
      have hresumed : absencesOn (resumed wait stack) = absencesOn stack :=
        absencesOn_of_shape (shape_resumed wait stack)
      rcases outcome with (err | _ | _ | _) | y
      · exact .of_eq hresumed
      · exact .keeps _
      · exact .keeps _
      · exact .keeps _
      · exact .of_eq hresumed
  | polling t =>
      rcases outcome with (err | _ | _ | _) | y
      · exact .keeps _
      · exact .keeps _
      · exact .keeps _
      · exact .keeps _
      · exact .of_eq (World.absences_nextAction w stack t)
  | acquiring t l =>
      cases outcome with
      | ok y => exact .of_eq (World.absences_recordAnd w stack t l _)
      | error failure => exact .keeps _
  | waitOver result | sleepOver result =>
      rcases result with err | o <;> rcases outcome with (err' | _ | _ | _) | y <;> exact .keeps _
  | timing start | unlocking kept | lyingDown t l timeout => cases outcome <;> exact .keeps _
  | entering t l callback kind =>
      cases outcome with
      | ok y => exact .of_eq (BodyRun.absences_proceed_of_inner _ _ _ rfl)
      | error failure => exact .keeps _
  | guarding t l kind => exact .of_eq (World.absences_guardOver w stack t l kind outcome)
  | finalizing calls ran =>
      rcases outcome with (err | _ | _ | _) | y
      · exact .of_eq (World.absences_nextFinalizer w stack calls ran)
      · exact .keeps _
      · exact .keeps _
      · exact .keeps _
      · exact .of_eq (World.absences_nextFinalizer w stack calls ran)
  | iterating iteration =>
      cases outcome with
      | ok y => exact .of_eq (World.absences_nextItem w stack iteration)
      | error failure => exact .of_eq (absencesOn_reportEvent _ stack)
  | _ => exact .keeps _

namespace Machine

variable {m : Machine} {me : Nat}

inductive AbsenceStep (m : Machine) (me : Nat) (e : Executor) : List Absence → Prop where
  | waits (wait : ConditionWait) (phase : WaitPhase) (wakeAt : Option Nat)
    (hcontrol : e.control = .condition wait phase wakeAt) (hown : phase.isOwn)
    (hsync : (m.step me).world.sync = (wait.step m.world.clock me phase m.world.sync).2) :
    AbsenceStep m me e
      (.waiting wait (wait.step m.world.clock me phase m.world.sync).1 :: absencesOn e.stack)
  | turns {absences : List Absence}
    (hidle : ∀ wait phase wakeAt, e.control = .condition wait phase wakeAt → phase.isOwn = false)
    (hturns : e.Turns m.world e.absences absences) : AbsenceStep m me e absences

private theorem absenceStep_continueWait {wait : ConditionWait} {phase : WaitPhase}
    {wakeAt : Option Nat} (hcontrol : e.control = .condition wait phase wakeAt)
    (hstep : m.step me = m.put me e.current (continueWait me wait phase m.world e.stack)) :
    AbsenceStep m me e (continueWait me wait phase m.world e.stack).absences := by
  have habsences : e.absences = .waiting wait phase :: absencesOn e.stack := by
    rw [Executor.absences, hcontrol]
    rfl
  have hown : phase.isOwn → AbsenceStep m me e
      (.waiting wait (wait.step m.world.clock me phase m.world.sync).1 :: absencesOn e.stack) := by
    intro hown
    refine .waits wait phase wakeAt hcontrol hown ?_
    rw [hstep]
    cases phase <;> first | rfl | cases hown
  have hidle : phase.isOwn = false → ∀ wait phase wakeAt, e.control = .condition wait phase wakeAt →
      phase.isOwn = false := by
    intro hphase wait' phase' wakeAt' hcontrol'
    rw [hcontrol] at hcontrol'
    cases hcontrol'
    exact hphase
  cases phase with
  | polling holds =>
      refine .turns (hidle rfl) ?_
      rw [habsences]
      exact .of_eq (World.absences_startPoll m.world _ wait.thread)
  | relocking holds result =>
      refine .turns (hidle rfl) ?_
      rw [habsences]
      rcases World.absences_startAcquire m.world (.waitOver result :: e.stack) wait.thread wait.lock
        (.relocking wait.thread wait.lock holds none) with hnew | hsame
      · rw [continueWait, World.startRelock, hnew]
        exact .relocks wait holds result _
      · rw [continueWait, World.startRelock, hsame]
        exact .drops _ _
  | _ => exact hown rfl

private theorem turns_spawn {e' : Executor} {name : String} {threadName : Option String}
    {body : Body} (he : m.executors[me]? = some e)
    (he' : (m.spawn me e name threadName body).executors[me]? = some e') :
    e.Turns m.world (absencesOn e.stack) e'.absences := by
  have hlength : me < m.executors.length := (List.getElem?_eq_some_iff.mp he).1
  unfold spawn at he'
  split at he'
  · rw [executors_put he] at he'
    cases he'
    exact .keeps _
  · rw [List.getElem?_append_left (by simpa [put] using hlength)] at he'
    cases (executors_put he _ _).symm.trans he'
    exact .keeps _

private theorem turns_perform {op : Op} {e' : Executor} (he : m.executors[me]? = some e)
    (hcontrol : e.control = .perform op) (he' : (m.perform me e op).executors[me]? = some e') :
    e.Turns m.world (absencesOn e.stack) e'.absences := by
  have hput : ∀ {current : Option ThreadId} {task : Task},
      m.perform me e op = m.put me current task →
      e.Turns m.world (absencesOn e.stack) task.absences →
      e.Turns m.world (absencesOn e.stack) e'.absences := by
    intro current task hperform h
    rw [hperform, executors_put he] at he'
    cases he'
    exact h
  cases op with
  | mutex op =>
      by_cases hwait : op.mustWait m.world
      · rw [perform, if_pos hwait, he] at he'
        cases he'
        refine .of_eq ?_
        rw [Executor.absences, hcontrol]
        rfl
      · exact hput (if_neg hwait) (.of_eq (op.absences_start m.world e.stack))
  | call op =>
      cases op with
      | spawn name threadName body => exact turns_spawn he he'
      | join name =>
          simp only [perform] at hput
          split at hput <;> exact hput rfl (.keeps _)
      | _ => exact hput rfl (CallOp.turns_start m.held hcontrol)
  | _ => exact hput rfl (.of_eq (absences_afterReply e.stack _))

/-- A step that is not one of a condition wait finds all absences on the stack. -/
private theorem turns_step {e' : Executor} (he : m.executors[me]? = some e)
    (he' : (m.step me).executors[me]? = some e')
    (hother : ∀ wait phase wakeAt, e.control ≠ .condition wait phase wakeAt) :
    e.Turns m.world (absencesOn e.stack) e'.absences := by
  have hput : ∀ {task : Task}, (m.put me e.current task).executors[me]? = some e' →
      e.Turns m.world (absencesOn e.stack) task.absences →
      e.Turns m.world (absencesOn e.stack) e'.absences := by
    intro task he' h
    rw [executors_put he] at he'
    cases he'
    exact h
  have hdoes := does he
  generalize m.step me = m' at hdoes he'
  cases hdoes with
  | idles hcontrol =>
      rw [he] at he'
      cases he'
      refine .of_eq ?_
      rw [Executor.absences]
      rcases hcontrol with ⟨what, hcontrol⟩ | ⟨target, hcontrol⟩ | ⟨result, hcontrol⟩ <;>
        rw [hcontrol] <;> rfl
  | performs hcontrol => exact turns_perform he hcontrol he'
  | attempts hcontrol =>
      refine hput he' (.of_eq ((absences_afterAttempt _ _ _).trans ?_))
      exact absencesOn_of_shape (shape_noteAttempt m.world _ e.stack)
  | resumes hcontrol => exact hput he' (.of_eq (absences_afterAttempt _ _ _))
  | releases hcontrol => exact hput he' (.of_eq (World.absences_release m.world e.stack _ _))
  | polls hcontrol hstack =>
      refine hput he' ?_
      rw [hstack]
      exact .of_eq (World.absences_startPoll _ _ _)
  | refuses hcontrol hstack => exact hput he' (.keeps _)
  | continues hcontrol => exact absurd hcontrol (hother _ _ _)
  | learns hcontrol => exact hput he' (.keeps _)
  | receives hcontrol hstack =>
      refine hput he' ?_
      rw [hstack]
      exact Frame.turns_receive _ _ _
  | finishes hcontrol hstack => exact hput he' (.ends _)
  | answers hcontrol => exact hput he' (turns_receiveAnswer m.watched m.held e.stack _ _)

/-- Only the innermost absence of an executor changes in a step. -/
theorem absenceStep {e' : Executor} (he : m.executors[me]? = some e)
    (he' : (m.step me).executors[me]? = some e') : AbsenceStep m me e e'.absences := by
  by_cases hwait : ∃ wait phase wakeAt, e.control = .condition wait phase wakeAt
  · obtain ⟨wait, phase, wakeAt, hcontrol⟩ := hwait
    have hstep : m.step me = m.put me e.current (continueWait me wait phase m.world e.stack) := by
      simp [step, he, hcontrol]
    have hafter := absenceStep_continueWait hcontrol hstep
    rw [hstep, executors_put he] at he'
    cases he'
    exact hafter
  · have hother : ∀ wait phase wakeAt, e.control ≠ .condition wait phase wakeAt :=
      fun wait phase wakeAt h => hwait ⟨wait, phase, wakeAt, h⟩
    have habsences : e.absences = absencesOn e.stack := by
      rw [Executor.absences]
      cases hcontrol : e.control <;> first | rfl | exact absurd hcontrol (hother _ _ _)
    refine .turns (fun _ _ _ h => absurd h (hother _ _ _)) ?_
    rw [habsences]
    exact turns_step he he' hother

theorem absences_fresh {x : Executor} (h : x.Fresh) : x.absences = [] := by
  have hcontrol : x.control.absence? = none := by
    rcases h.control with ⟨op, hcontrol⟩ | ⟨result, hcontrol⟩ <;> rw [hcontrol] <;> rfl
  rw [Executor.absences, hcontrol]
  rcases h.stack with hempty | ⟨running, bottom, hbottom, hstack⟩
  · rw [hempty]
    rfl
  · rw [hstack]
    cases bottom <;> first | rfl | cases hbottom

end Machine

end Session

end RubyRuntime
