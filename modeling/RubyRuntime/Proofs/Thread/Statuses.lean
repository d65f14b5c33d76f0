import RubyRuntime.Proofs.Session.Transfers

/-!
# What changes the status of a thread

A thread is shown as asleep from the beginning to the end of a blocking call on its behalf, and as
dead from its end on. `Executor.sleeper?` is the thread whose blocking call an executor begins or
ends with its next step, or which it brings to its end. The main result is that a step changes the
status of no other thread, except that a thread with nothing to do comes to its end when it is
spawned. Calm steps are quiet but for that thread already; what is left are the steps that queue or
take actions, take interrupts, or enter a primitive.
-/
namespace RubyRuntime

theorem Parking.status_settle {α : Type} (now : Nat) (deadline : Option Nat) (parking : Parking)
    (thread : ThreadRecord α) :
    (parking.settle now deadline thread).2.status = thread.status := by
  refine field_settle (·.status) (fun parking thread => ?_) parking thread
  cases parking with
  | leaving interrupted | finished interrupted => rfl
  | _ =>
      simp only [Parking.step]
      split <;> rfl

namespace Sync

variable {α : Type}

namespace SameStatus

theorem submit (s : Sync α) (t : ThreadId) (action : α) :
    s.SameStatus none (s.submit t action) := by
  have hcounted : s.SameStatus none { s with submitted := s.submitted + 1 } :=
    .of_thread fun _ => rfl
  exact hcounted.trans (updateThread _ t (.inr (Signal.status_deliver _ _)))

theorem submitIfAlive (s : Sync α) (t : ThreadId) (action : α) :
    s.SameStatus none (s.submitIfAlive t action) := by
  unfold Sync.submitIfAlive
  split
  · exact submit s t action
  · exact .refl s

theorem submitAll (s : Sync α) (ts : List ThreadId) (action : α) :
    s.SameStatus none (s.submitAll ts action) := by
  unfold Sync.submitAll
  induction ts generalizing s with
  | nil => exact .refl s
  | cons t ts ih => exact (submitIfAlive s t action).trans (ih _)

end SameStatus

theorem status_finishThread (s : Sync α) (t u : ThreadId) :
    ((s.finishThread t).thread u).status = if t = u then .dead else (s.thread u).status := by
  have hthread : (s.finishThread t).thread u = (((s.updateThread t fun thread =>
      { thread with status := .dead }).updateThread t fun thread =>
        { thread with ownedLocks := [] }).thread u) :=
    thread_foldl_releaseFully _ _ _ _
  rw [hthread, thread_updateThread, thread_updateThread]
  split <;> rfl

end Sync

namespace Session

theorem QueueOp.sameStatus_perform (op : QueueOp) (w : World) :
    w.SameStatus none (op.perform w).world := by
  rcases op.sync_perform w with hsync | ⟨t, hsync⟩
  · exact .of_sync_eq hsync
  · exact (w.quiet_threadNamed t).sameStatus.trans (.of_sync_eq hsync)

theorem ThreadOp.sameStatus_perform (op : ThreadOp Body) (scope : Scope) (w : World) :
    w.SameStatus (op.ended? scope) (op.perform scope w).1.world := by
  by_cases hquiet : op.isSubmission = false ∧ op.disarmed? = none
  · exact (op.quiet_perform scope w hquiet.1 hquiet.2).sameStatus
  · have hnamed := fun name => (w.quiet_threadNamed name).sameStatus
    cases op with
    | raiseIn name e | kill name =>
        exact (hnamed name).trans (Sync.SameStatus.submitIfAlive _ _ _)
    | submit name label body => exact (hnamed name).trans (Sync.SameStatus.submit _ _ _)
    | pauseAll label body => exact Sync.SameStatus.submitAll _ _ _
    | pauseSome names label body =>
        exact (w.quiet_threadsNamed names).sameStatus.trans (Sync.SameStatus.submitAll _ _ _)
    | takeInterrupt name | checkInterrupted name =>
        exact (hnamed name).trans (World.sameStatus_updateThread _ _ (.inr rfl))
    | _ => exact absurd ⟨rfl, rfl⟩ hquiet

theorem Wait.sameStatus_unlessInterrupted {but : Option ThreadId} (wait : Wait) (w : World)
    {next : World × Progress} (hnext : w.SameStatus but next.1) :
    w.SameStatus but (wait.unlessInterrupted w next).1 := by
  unfold unlessInterrupted
  split
  · exact w.sameStatus_updateThread _ (.inr rfl)
  · exact hnext

theorem Wait.sameStatus_attempt {but : Option ThreadId} (wait : Wait) (ticket : Ticket)
    (w : World) : w.SameStatus but (wait.attempt ticket w).1 := by
  cases wait with
  | park t deadline parking =>
      have hsettle := Parking.status_settle w.clock deadline parking (w.thread t)
      simp only [attempt]
      split
      · next interrupted thread heq =>
        rw [heq] at hsettle
        exact w.sameStatus_updateThread t (.inr hsettle)
      · next parking' thread _ heq =>
        rw [heq] at hsettle
        exact w.sameStatus_updateThread t (.inr hsettle)
  | acquire t l =>
      simp only [attempt]
      split
      · next sync hacquire => exact (Sync.Quiet.of_acquire hacquire).status.of_none
      · exact sameStatus_unlessInterrupted _ w (w.quiet_updateLock l _).sameStatus.of_none
      · exact .refl w
  | take t q deadline | boundedTake t q deadline | put t q item =>
      simp only [attempt]
      split <;> exact .of_sync_eq rfl
  | scripted t cues plain =>
      simp only [attempt]
      split
      · exact .refl w
      · exact sameStatus_unlessInterrupted _ w (.refl w)
      · exact .refl w

theorem Wait.sameStatus_resume {but : Option ThreadId} (wait : Wait) (old ticket : Ticket)
    (w : World) : w.SameStatus but (wait.resume old ticket w).1 := by
  have hagain : ∀ {w' : World}, w'.sync = w.sync →
      w.SameStatus but (wait.unlessInterrupted w' (wait.attempt ticket w')).1 := by
    intro w' hsync
    exact .trans (.of_sync_eq hsync)
      (sameStatus_unlessInterrupted _ w' (sameStatus_attempt _ ticket w'))
  cases wait with
  | park | scripted => exact sameStatus_attempt _ ticket w
  | acquire t l =>
      exact (w.quiet_updateLock l _).sameStatus.of_none.trans (sameStatus_attempt _ ticket _)
  | take | boundedTake | put => exact hagain rfl

namespace Machine

def sleeper? (m : Machine) (me : Nat) : Option ThreadId :=
  m.executors[me]?.bind (Executor.sleeper? m.world)

variable {m : Machine} {me : Nat} {e : Executor} {t : ThreadId}

/-- Queueing or taking an action, taking an interrupt and entering a primitive change no status, but
a poll may begin where a blocking call ends. -/
private theorem sameStatus_of_not_calm (he : m.executors[me]? = some e)
    (hcalm : e.isCalm m.world = false) :
    m.world.SameStatus (e.sleeper? m.world) (m.step me).world := by
  have hdraw : ∀ {but}, m.world.SameStatus but m.world.drawTicket.2 :=
    Sync.SameStatus.of_thread fun _ => rfl
  have hlook : e.looks? m.world ≠ none →
      m.world.SameStatus (e.sleeper? m.world) (m.step me).world := by
    intro hlooks
    obtain ⟨⟨t, base⟩, hpoll⟩ := Option.ne_none_iff_exists'.mp hlooks
    obtain ⟨w, hquiet, hstep⟩ := step_looks he hpoll
    rw [hstep]
    exact hquiet.sameStatus.trans (w.sameStatus_nextAction base t).of_none
  simp only [Executor.isCalm] at hcalm
  split at hcalm
  · next op hcontrol =>
    have hperform := op.sameStatus_perform ⟨me, e.current, m.held⟩ m.world
    simp only [step, he, hcontrol, Executor.sleeper?]
    cases op <;> exact hperform
  · next op hcontrol =>
    simp only [step, he, hcontrol]
    exact (op.sameStatus_perform m.world).of_none
  · next wait hcontrol =>
    simp only [step, he, hcontrol, put, world_afterAttempt]
    exact hdraw.trans (wait.sameStatus_attempt _ _)
  · next wait old wakeAt hcontrol =>
    simp only [step, he, hcontrol, put, world_afterAttempt]
    exact hdraw.trans (wait.sameStatus_resume _ _ _)
  · next wait holds wakeAt hcontrol =>
    have hsteps := wait.steps m.world.clock me (.awake holds) m.world.sync
    simp only [step, he, hcontrol]
    exact (Sync.SameStatus.of_steps hsteps).of_none
  · refine hlook fun hlooks => ?_
    simp [hlooks] at hcalm

theorem sameStatus_step (he : m.executors[me]? = some e)
    (hspawn : ∀ name threadName body,
      e.control ≠ .perform (.call (.spawn name threadName body))) :
    m.world.SameStatus (e.sleeper? m.world) (m.step me).world := by
  cases hcalm : e.isCalm m.world with
  | true => exact (quiet_step he hspawn hcalm).sameStatus
  | false => exact sameStatus_of_not_calm he hcalm

theorem status_step (ht : t ≠ m.world.sync.threads.length) (hsleeper : m.sleeper? me ≠ some t) :
    ((m.step me).world.thread t).status = (m.world.thread t).status := by
  cases he : m.executors[me]? with
  | none => simp [step, he]
  | some e =>
      simp only [sleeper?, he, Option.bind_some] at hsleeper
      by_cases hspawn : ∃ name threadName body,
          e.control = .perform (.call (.spawn name threadName body))
      · obtain ⟨name, threadName, body, hcontrol⟩ := hspawn
        simp only [step, he, hcontrol]
        refine (quiet_spawn e name threadName body).sameStatus t fun heq => ?_
        exact ht (Option.some.inj heq).symm
      · refine sameStatus_step he (fun name threadName body hcontrol => ?_) t hsleeper
        exact hspawn ⟨name, threadName, body, hcontrol⟩

/-- A thread that is dead stays so unless something is done on its behalf. -/
theorem dead_step (hdead : (m.world.thread t).status = .dead) (hsleeper : m.sleeper? me ≠ some t) :
    ((m.step me).world.thread t).status = .dead := by
  refine (status_step ?_ hsleeper).trans hdead
  rintro rfl
  simp [World.thread, Sync.thread] at hdead

end Machine

end Session

end RubyRuntime
