import RubyRuntime.Proofs.Session.Quietude
import RubyRuntime.Proofs.Session.Runs

/-!
# Steps that move actions or items

Every step of an executor is still but four: it queues actions on threads, it looks for an action in
a poll, it performs a step on a queue, or it enters the critical section of a queue to take or to
put an item. Apart from entering a primitive and from consuming an interrupt, the still ones are
quiet but for the thread that the executor works for.
-/
namespace RubyRuntime.Session

theorem ThreadOp.sameQueues_perform (op : ThreadOp Body) (scope : Scope) (w : World) :
    w.SameQueues (op.perform scope w).1.world := by
  have hsync : ∀ (w : World) f, w.SameQueues (w.updateSync f) :=
    fun _ _ => ⟨fun _ => rfl, fun _ => rfl⟩
  cases hsubmits : op.isSubmission with
  | false => exact (op.still_perform scope w hsubmits).toSameQueues
  | true =>
      cases op with
      | raiseIn name e | kill name | submit name label body =>
          exact (w.quiet_threadNamed name).toSameQueues.trans (hsync _ _)
      | pauseAll label body => exact hsync w _
      | pauseSome names label body =>
          exact (w.quiet_threadsNamed names).toSameQueues.trans (hsync _ _)
      | _ => cases hsubmits

def Wait.isQueueing : Wait → Bool
  | take _ _ _ | boundedTake _ _ _ | put _ _ _ => true
  | park _ _ _ | acquire _ _ | scripted _ _ _ => false

theorem Wait.still_attempt {wait : Wait} (ticket : Ticket) (w : World)
    (h : wait.isQueueing = false) : w.Still (wait.attempt ticket w).1 := by
  have hdrop : ∀ {wait : Wait}, w.Still (w.updateThread wait.thread (·.dropInterrupt)) :=
    w.still_updateThread _ ⟨rfl, rfl⟩
  cases wait with
  | take | boundedTake | put => cases h
  | park t deadline parking =>
      have hsettle := Parking.actions_settle w.clock deadline parking (w.thread t)
      simp only [attempt]
      split
      · next interrupted thread heq =>
        rw [heq] at hsettle
        exact w.still_updateThread t hsettle
      · next parking' thread _ heq =>
        rw [heq] at hsettle
        exact w.still_updateThread t hsettle
  | acquire t l =>
      simp only [attempt]
      split
      · next sync hacquire => exact (World.Quiet.of_sync (.of_acquire hacquire)).still
      · unfold unlessInterrupted
        split
        · exact hdrop
        · exact (w.quiet_updateLock l _).still
      · exact .refl w
  | scripted t cues plain =>
      simp only [attempt]
      split
      · exact .refl w
      · unfold unlessInterrupted
        split
        · exact hdrop
        · exact .refl w
      · exact .refl w

theorem Wait.still_resume {wait : Wait} (old ticket : Ticket) (w : World)
    (h : wait.isQueueing = false) : w.Still (wait.resume old ticket w).1 := by
  cases wait with
  | take | boundedTake | put => cases h
  | park | scripted => exact still_attempt ticket w rfl
  | acquire t l => exact (w.quiet_updateLock l _).still.trans (still_attempt ticket _ rfl)

theorem Wait.sameActions_attempt {wait : Wait} (ticket : Ticket) (w : World)
    (h : wait.isQueueing) : w.sync.SameActions (wait.attempt ticket w).1.sync := by
  cases wait with
  | park | acquire | scripted => cases h
  | take t q deadline =>
      simp only [attempt]
      split <;> exact .refl _
  | boundedTake t q deadline =>
      simp only [attempt]
      split <;> exact .refl _
  | put t q item =>
      simp only [attempt]
      split <;> exact .refl _

theorem Wait.sameActions_resume {wait : Wait} (old ticket : Ticket) (w : World)
    (h : wait.isQueueing) : w.sync.SameActions (wait.resume old ticket w).1.sync := by
  have hnext : ∀ {w' : World}, w'.sync = w.sync →
      w.sync.SameActions (wait.unlessInterrupted w' (wait.attempt ticket w')).1.sync := by
    intro w' hsync
    rw [← hsync]
    unfold unlessInterrupted
    split
    · exact (w'.still_updateThread _ ⟨rfl, rfl⟩).sync
    · exact sameActions_attempt ticket w' h
  cases wait with
  | park | acquire | scripted => cases h
  | take | boundedTake | put => exact hnext rfl

/-- The poll that an executor begins with its next step: the thread that it is for, and the frames
that get its result. -/
def Executor.polls? (w : World) (e : Executor) : Option (ThreadId × List Frame) :=
  match e.control, e.stack with
  | .perform (.call (.poll name)), stack => some ((w.threadNamed name).1, .showing .null :: stack)
  | .interrupted wait, .blocking _ _ :: stack => some (wait.thread, .polled wait :: stack)
  | .condition wait (.polling holds) _, stack =>
    some (wait.thread, .waitPolled wait holds :: stack)
  | _, _ => none

def Executor.pollsOn? (e : Executor) : Option (ThreadId × List Frame) :=
  match e.control, e.stack with
  | .give (.ok _), .polling t :: stack => some (t, stack)
  | _, _ => none

/-- The poll in which an executor looks for an action with its next step. A poll that begins does so
only if actions are announced. -/
def Executor.looks? (w : World) (e : Executor) : Option (ThreadId × List Frame) :=
  match e.polls? w with
  | some (t, base) => if (w.thread t).pending then some (t, base) else none
  | none => e.pollsOn?

/-- Whether the next step of an executor moves no action and no item. -/
def Executor.isStill (w : World) (e : Executor) : Bool :=
  match e.control with
  | .perform (.thread op) => !op.isSubmission
  | .perform (.queue _) => false
  | .attempt wait | .parked wait _ _ => !wait.isQueueing
  | _ => (e.looks? w).isNone

def Executor.isCalm (w : World) (e : Executor) : Bool :=
  match e.control with
  | .perform (.thread op) => !op.isSubmission && op.disarmed?.isNone
  | .perform (.queue _) => false
  | .attempt _ | .parked _ _ _ => false
  | .condition _ (.awake _) _ => false
  | _ => (e.looks? w).isNone

namespace Machine

variable {m : Machine} {me : Nat} {e : Executor}

theorem step_polls {t : ThreadId} {base : List Frame} (he : m.executors[me]? = some e)
    (h : e.polls? m.world = some (t, base)) :
    ∃ w, m.world.Quiet (e.sleeper? m.world) w ∧
      m.step me = m.put me e.current (w.startPoll base t) := by
  unfold Executor.polls? at h
  split at h
  · next stack name hcontrol =>
    cases h
    refine ⟨_, .of_none (m.world.quiet_threadNamed name), ?_⟩
    simp only [step, he, hcontrol]
    rfl
  · next wait other previous stack hcontrol hstack =>
    cases h
    have hsleeper : e.sleeper? m.world = some wait.thread := by simp [Executor.sleeper?, hcontrol]
    refine ⟨_, m.world.quiet_updateThread wait.thread
      (f := fun thread => { thread with status := previous }) ⟨rfl, rfl⟩ id (.inl hsleeper), ?_⟩
    simp only [step, he, hcontrol, hstack]
  · next wait holds wakeAt stack hcontrol =>
    cases h
    refine ⟨m.world, .of_none (.refl _), ?_⟩
    simp only [step, he, hcontrol]
    rfl
  · cases h

theorem step_pollsOn {t : ThreadId} {base : List Frame} (he : m.executors[me]? = some e)
    (h : e.pollsOn? = some (t, base)) :
    m.step me = m.put me e.current (m.world.nextAction base t) := by
  unfold Executor.pollsOn? at h
  split at h
  · next y u stack hcontrol hstack =>
    cases h
    simp only [step, he, hcontrol, hstack]
    rfl
  · cases h

theorem step_looks {t : ThreadId} {base : List Frame} (he : m.executors[me]? = some e)
    (h : e.looks? m.world = some (t, base)) :
    ∃ w, m.world.Quiet (e.sleeper? m.world) w ∧
      m.step me = m.put me e.current (w.nextAction base t) := by
  unfold Executor.looks? at h
  split at h
  · next u stack hpolls =>
    split at h
    · next hpending =>
      cases h
      obtain ⟨w, hquiet, hstep⟩ := step_polls he hpolls
      have hpending' : (w.thread t).pending = true := (hquiet.sync.pending t).trans hpending
      refine ⟨w, hquiet, ?_⟩
      rw [hstep, World.startPoll, if_pos hpending']
    · cases h
  · exact ⟨m.world, .of_none (.refl _), step_pollsOn he h⟩

/-- A thread that has nothing to do comes to its end when it is spawned. -/
theorem quiet_spawn (e : Executor) (name : String) (threadName : Option String) (body : Body) :
    m.world.Quiet (some m.world.sync.threads.length)
      (m.spawn me e name threadName body).world := by
  unfold spawn
  split
  · exact .of_none (.of_sync (.createThread m.world.sync threadName))
  · let run : BodyRun :=
      ⟨.thread m.world.sync.threads.length, body.steps, [], body.ending⟩
    exact (m.world.quiet_newThread name threadName).of_none.trans (run.quiet_proceed _ [])

private theorem quiet_perform {op : Op} (hcontrol : e.control = .perform op)
    (hspawn : ∀ name threadName body, op ≠ .call (.spawn name threadName body))
    (hcalm : e.isCalm m.world) (hpolls : e.polls? m.world = none) :
    m.world.Quiet (e.sleeper? m.world) (m.perform me e op).world := by
  simp only [Executor.isCalm, hcontrol] at hcalm
  simp only [Executor.sleeper?, hcontrol]
  cases op with
  | thread op =>
      simp only [Bool.and_eq_true, Bool.not_eq_true', Option.isNone_iff_eq_none] at hcalm
      have hquiet := op.quiet_perform ⟨me, e.current, m.held⟩ m.world hcalm.1 hcalm.2
      cases op <;> exact hquiet
  | mutex op =>
      simp only [perform]
      split
      · exact .refl _
      · exact op.quiet_start m.world e.stack
  | queue op => cases hcalm
  | object op => exact op.quiet_perform m.world
  | space op => exact op.quiet_perform _ m.world
  | weak op => exact op.quiet_perform _ m.world
  | stack op => exact op.quiet_perform m.world
  | call op =>
      cases op with
      | spawn name threadName body => exact absurd rfl (hspawn name threadName body)
      | join name =>
          simp only [perform]
          split <;> exact .refl _
      | poll name => simp [Executor.polls?, hcontrol] at hpolls
      | _ => exact CallOp.quiet_start _ m.held m.world e.stack (by simp)

private theorem quiet_poll {t : ThreadId} {base : List Frame} (he : m.executors[me]? = some e)
    (hpolls : e.polls? m.world = some (t, base)) (hlooks : e.looks? m.world = none) :
    m.world.Quiet (e.sleeper? m.world) (m.step me).world := by
  obtain ⟨w, hquiet, hstep⟩ := step_polls he hpolls
  have hpending : (m.world.thread t).pending = false := by
    simpa [Executor.looks?, hpolls] using hlooks
  rw [hstep, World.startPoll_of_not_pending w base t ((hquiet.sync.pending t).trans hpending)]
  exact hquiet

/-- A calm step changes the status of no thread but the one that its executor works for, unless it
spawns one. -/
theorem quiet_step (he : m.executors[me]? = some e)
    (hspawn : ∀ name threadName body, e.control ≠ .perform (.call (.spawn name threadName body)))
    (hcalm : e.isCalm m.world) : m.world.Quiet (e.sleeper? m.world) (m.step me).world := by
  have hsame : m.world.Quiet (e.sleeper? m.world) m.world := .of_none (.refl _)
  cases hpolls : e.polls? m.world with
  | some poll =>
      refine quiet_poll he hpolls ?_
      unfold Executor.isCalm at hcalm
      unfold Executor.polls? at hpolls
      split at hpolls
      · next hcontrol => simpa [hcontrol] using hcalm
      · next hcontrol hstack => simpa [hcontrol] using hcalm
      · next hcontrol => simpa [hcontrol] using hcalm
      · cases hpolls
  | none =>
      have hdoes := does he
      generalize m.step me = m' at hdoes ⊢
      cases hdoes with
      | idles => exact hsame
      | performs hcontrol =>
          refine quiet_perform hcontrol (fun name threadName body hop => ?_) hcalm hpolls
          exact hspawn name threadName body (hop ▸ hcontrol)
      | attempts hcontrol | resumes hcontrol => simp [Executor.isCalm, hcontrol] at hcalm
      | releases hcontrol => exact .of_none (m.world.quiet_release e.stack _ _)
      | polls hcontrol hstack => simp [Executor.polls?, hcontrol, hstack] at hpolls
      | refuses => exact hsame
      | continues hcontrol =>
          refine quiet_continueWait me m.world hcontrol fun holds => ⟨?_, ?_⟩
          · rintro rfl
            simp [Executor.polls?, hcontrol] at hpolls
          · rintro rfl
            simp [Executor.isCalm, hcontrol] at hcalm
      | learns | finishes => exact hsame
      | @receives outcome frame base hcontrol hstack =>
          have hlooks : e.pollsOn? = none := by
            simpa [Executor.isCalm, hcontrol, Executor.looks?, hpolls] using hcalm
          simp only [Executor.sleeper?, hcontrol, hstack]
          refine frame.quiet_receive m.world base outcome ?_
          unfold Frame.goesOn?
          split
          · simp [Executor.pollsOn?, hcontrol, hstack] at hlooks
          · rfl
      | answers hcontrol => exact quiet_receiveAnswer _ _ _ hcontrol

theorem calm_step (he : m.executors[me]? = some e) (hcalm : e.isCalm m.world) :
    m.world.Calm (m.step me).world := by
  by_cases hspawn : ∃ name threadName body,
      e.control = .perform (.call (.spawn name threadName body))
  · obtain ⟨name, threadName, body, hcontrol⟩ := hspawn
    simp only [step, he, hcontrol]
    exact (quiet_spawn e name threadName body).calm
  · refine (quiet_step he (fun name threadName body hcontrol => ?_) hcalm).calm
    exact hspawn ⟨name, threadName, body, hcontrol⟩

theorem still_step (he : m.executors[me]? = some e) (hstill : e.isStill m.world) :
    m.world.Still (m.step me).world := by
  have hdraw : m.world.Still m.world.drawTicket.2 := .of_sync (.of_thread fun _ => rfl)
  cases hcalm : e.isCalm m.world with
  | true => exact (calm_step he hcalm).still
  | false =>
      simp only [Executor.isCalm] at hcalm
      split at hcalm
      · next op hcontrol =>
        simp only [Executor.isStill, hcontrol, Bool.not_eq_true'] at hstill
        simp only [step, he, hcontrol]
        exact op.still_perform _ m.world hstill
      · next op hcontrol => simp [Executor.isStill, hcontrol] at hstill
      · next wait hcontrol =>
        simp only [Executor.isStill, hcontrol, Bool.not_eq_true'] at hstill
        simp only [step, he, hcontrol, put, world_afterAttempt]
        exact hdraw.trans (Wait.still_attempt _ _ hstill)
      · next wait old wakeAt hcontrol =>
        simp only [Executor.isStill, hcontrol, Bool.not_eq_true'] at hstill
        simp only [step, he, hcontrol, put, world_afterAttempt]
        exact hdraw.trans (Wait.still_resume _ _ _ hstill)
      · next wait holds wakeAt hcontrol =>
        simp only [step, he, hcontrol]
        exact .of_sync (.of_steps (wait.steps m.world.clock me (.awake holds) m.world.sync))
      · simp only [Executor.isStill, hcalm] at hstill
        cases hstill

theorem sameQueues_step (he : m.executors[me]? = some e)
    (hop : ∀ op, e.control ≠ .perform (.queue op))
    (hattempt : ∀ wait, e.control = .attempt wait → wait.isQueueing = false)
    (hparked : ∀ wait ticket wakeAt, e.control = .parked wait ticket wakeAt →
      wait.isQueueing = false) : m.world.SameQueues (m.step me).world := by
  cases hstill : e.isStill m.world with
  | true => exact (still_step he hstill).toSameQueues
  | false =>
      simp only [Executor.isStill] at hstill
      split at hstill
      · next op hcontrol =>
        simp only [step, he, hcontrol]
        exact op.sameQueues_perform _ m.world
      · next op hcontrol => exact absurd hcontrol (hop op)
      · next wait hcontrol => simp [hattempt wait hcontrol] at hstill
      · next wait ticket wakeAt hcontrol => simp [hparked wait ticket wakeAt hcontrol] at hstill
      · cases hlooks : e.looks? m.world with
        | none => simp [hlooks] at hstill
        | some poll =>
            obtain ⟨w, hworld, hstep⟩ := step_looks he hlooks
            rw [hstep]
            exact hworld.toSameQueues.trans (w.sameQueues_nextAction _ _)

theorem sameActions_step (he : m.executors[me]? = some e) (hlooks : e.looks? m.world = none)
    (hsubmits : ∀ op, e.control = .perform (.thread op) → op.isSubmission = false) :
    m.world.sync.SameActions (m.step me).world.sync := by
  have hdraw : m.world.sync.SameActions m.world.drawTicket.2.sync := .of_thread fun _ => rfl
  cases hstill : e.isStill m.world with
  | true => exact (still_step he hstill).sync
  | false =>
      simp only [Executor.isStill] at hstill
      split at hstill
      · next op hcontrol => simp [hsubmits op hcontrol] at hstill
      · next op hcontrol =>
        simp only [step, he, hcontrol, perform, put, afterReply]
        rcases op.sync_perform m.world with hsync | ⟨t, hsync⟩
        · rw [hsync]
          exact .refl _
        · rw [hsync]
          exact (m.world.quiet_threadNamed t).sync.toSameActions
      · next wait hcontrol =>
        simp only [step, he, hcontrol, put, world_afterAttempt]
        exact hdraw.trans (Wait.sameActions_attempt _ _ (by simpa using hstill))
      · next wait old wakeAt hcontrol =>
        simp only [step, he, hcontrol, put, world_afterAttempt]
        exact hdraw.trans (Wait.sameActions_resume _ _ _ (by simpa using hstill))
      · simp [hlooks] at hstill

end Machine

theorem Script.still_start (script : Script) :
    World.Still { options := script.options } script.start.world :=
  (start_keeps (P := World.Quiet none { options := script.options })
    (fun w watched h => h.trans (w.quiet_mention watched)) (.refl _)).still

end RubyRuntime.Session
