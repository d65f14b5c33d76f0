import RubyRuntime.Proofs.Safepoint.Polls

/-!
# Interrupts

A blocked thread looks for queued actions when it finds itself interrupted, and one interrupt stands
for all of them: it is consumed before the first action runs. The main result is that queued actions
are never forgotten for good. Once nobody is engaged in submitting an action to a thread any more, a
thread with queued actions is interrupted, or a poll of its actions is under way; the poll
runs them all or, after an error, interrupts the thread again. But an action that blocks is not
interrupted for the sake of those behind it.
-/
namespace RubyRuntime

theorem Parking.interrupted_settle {α : Type} (now : Nat) (deadline : Option Nat)
    (parking : Parking) {thread : ThreadRecord α} (h : thread.interrupted) :
    (parking.settle now deadline thread).2.interrupted ∨
      (parking.settle now deadline thread).1 = .finished true := by
  have hinterrupt : ∀ (n : Nat) {thread : ThreadRecord α}, thread.interrupted →
      (checkingInterrupt.run now deadline (n + 2) thread).1 = .finished true := by
    intro n thread h
    simp [run, step, h]
  have hwakeUp : ∀ (n : Nat) (thread : ThreadRecord α), thread.interrupted →
      (checkingWakeUp.run now deadline (n + 3) thread).2.interrupted ∨
        (checkingWakeUp.run now deadline (n + 3) thread).1 = .finished true := by
    intro n thread h
    cases hwake : thread.wakeUp with
    | true =>
        left
        simp [run, step, hwake, ThreadRecord.dropWakeUp, ThreadRecord.setBusy, h]
    | false =>
        right
        have hnext := hinterrupt n h
        simpa [run, step, hwake] using hnext
  unfold settle
  cases parking with
  | entering =>
      cases hbusy : thread.parker.busy with
      | true => exact .inl (by simp [run, step, hbusy, h])
      | false =>
          have hnext := hwakeUp 1 (thread.setBusy true) h
          simpa [run, step, hbusy] using hnext
  | checkingWakeUp => exact hwakeUp 2 thread h
  | checkingInterrupt => exact .inr (hinterrupt 3 h)
  | checkingDeadline =>
      left
      cases hlate : isLate now deadline <;> simp [run, step, hlate, ThreadRecord.setBusy, h]
  | parked seen =>
      cases hroused : isRoused now deadline seen thread && !thread.parker.busy with
      | true =>
          have hnext := hwakeUp 1 (thread.setBusy true) h
          simpa [run, step, hroused] using hnext
      | false => exact .inl (by simp [run, step, hroused, h])
  | leaving interrupted => exact .inl (by simp [run, step, ThreadRecord.setBusy, h])
  | finished interrupted => exact .inl (by simp [run, step, h])

theorem Signal.interrupted_submit {α : Type} (action : α) (thread : ThreadRecord α) :
    ((Signal.submitting action).deliver thread).interrupted = true :=
  -- After three steps the thread is interrupted.
  keeps_interrupted_run 3 .entering (thread.pushAction action).markPending.interrupt rfl

namespace Sync

variable {α : Type} {s s' s'' : Sync α}

def Rouses (s s' : Sync α) : Prop :=
  ∀ t, (s'.thread t).interrupted ∨
    (s'.thread t).actions = (s.thread t).actions ∧ ¬ (s.thread t).interrupted

theorem Calm.rouses (h : s.Calm s') : s.Rouses s' := by
  intro t
  by_cases hinterrupted : (s.thread t).interrupted
  · exact .inl (h.interrupted t hinterrupted)
  · exact .inr ⟨h.actions t, hinterrupted⟩

theorem Rouses.trans (h : s.Rouses s') (h' : s'.Rouses s'') : s.Rouses s'' := by
  intro t
  rcases h' t with hafter | ⟨hactions', hquiet'⟩
  · exact .inl hafter
  · rcases h t with hbetween | ⟨hactions, hquiet⟩
    · exact absurd hbetween hquiet'
    · exact .inr ⟨hactions'.trans hactions, hquiet⟩

theorem rouses_submit (s : Sync α) (u : ThreadId) (action : α) :
    s.Rouses (s.submit u action) := by
  intro t
  have hthread : (s.submit u action).thread t =
      if u = t then (Signal.submitting action).deliver (s.thread t) else s.thread t := by
    rw [submit, thread_updateThread]
    rfl
  rw [hthread]
  split
  · exact .inl (Signal.interrupted_submit action _)
  · exact (Quiet.refl s).rouses t

theorem rouses_submitIfAlive (s : Sync α) (u : ThreadId) (action : α) :
    s.Rouses (s.submitIfAlive u action) := by
  unfold submitIfAlive
  split
  · exact rouses_submit s u action
  · exact (Quiet.refl s).rouses

theorem rouses_submitAll (s : Sync α) (ts : List ThreadId) (action : α) :
    s.Rouses (s.submitAll ts action) := by
  unfold submitAll
  induction ts generalizing s with
  | nil => exact (Quiet.refl s).rouses
  | cons u ts ih => exact (rouses_submitIfAlive s u action).trans (ih _)

end Sync

namespace Session

variable {t : ThreadId} {w : World}

theorem ThreadOp.rouses_perform (op : ThreadOp Body) (scope : Scope) (w : World)
    (h : op.isSubmission) : w.sync.Rouses (op.perform scope w).1.world.sync := by
  have hnamed := fun name => (w.quiet_threadNamed name).sync.rouses
  cases op with
  | raiseIn name e => exact (hnamed name).trans (Sync.rouses_submitIfAlive _ _ _)
  | kill name => exact (hnamed name).trans (Sync.rouses_submitIfAlive _ _ _)
  | submit name label body => exact (hnamed name).trans (Sync.rouses_submit _ _ _)
  | pauseAll label body => exact Sync.rouses_submitAll w.sync _ _
  | pauseSome names label body =>
      exact (w.quiet_threadsNamed names).sync.rouses.trans (Sync.rouses_submitAll _ _ _)
  | _ => cases h

/-- An interrupt that thread `t` had before a primitive was entered is left, or the primitive
reports it. -/
def KeepsInterrupt (t : ThreadId) (result : World × Progress) : Prop :=
  (result.1.thread t).interrupted ∨ ∃ wait, result.2 = .interrupted wait ∧ wait.thread = t

theorem World.interrupted_updateThread {u : ThreadId}
    {f : ThreadRecord Action → ThreadRecord Action} (h : (w.thread t).interrupted)
    (hf : u = t → (f (w.thread t)).interrupted) : ((w.updateThread u f).thread t).interrupted := by
  rw [World.thread, updateThread, updateSync, Sync.thread_updateThread]
  split
  · next hut => exact hf hut
  · exact h

theorem ThreadOp.interrupted_perform (op : ThreadOp Body) (scope : Scope)
    (h : (w.thread t).interrupted)
    (hdisarmed : ∀ name, op.disarmed? = some name → (w.threadNamed name).1 ≠ t) :
    ((op.perform scope w).1.world.thread t).interrupted := by
  cases hsubmits : op.isSubmission with
  | true =>
      rcases op.rouses_perform scope w hsubmits t with hafter | ⟨-, hquiet⟩
      · exact hafter
      · exact absurd h hquiet
  | false =>
      cases hname : op.disarmed? with
      | none => exact (op.quiet_perform scope w hsubmits hname).sync.interrupted t h
      | some name =>
          have hother := hdisarmed name hname
          have hnamed := (w.quiet_threadNamed name).sync.interrupted t h
          cases op with
          | takeInterrupt | checkInterrupted =>
              cases hname
              exact World.interrupted_updateThread hnamed fun hsame => absurd hsame hother
          | _ => cases hname

theorem QueueOp.quiet_sync_perform (op : QueueOp) (w : World) :
    w.sync.Quiet none (op.perform w).world.sync := by
  rcases op.sync_perform w with hsync | ⟨name, hsync⟩
  · rw [hsync]
    exact .refl _
  · rw [hsync]
    exact (w.quiet_threadNamed name).sync

theorem World.interrupted_nextAction (stack : List Frame) (u : ThreadId)
    (h : (w.thread t).interrupted) : ((w.nextAction stack u).world.thread t).interrupted := by
  have hpopped : ((w.popped u).thread t).interrupted := by
    rw [World.thread_popped]
    split <;> exact h
  exact (w.quiet_nextAction stack u).sync.interrupted t hpopped

namespace Wait

theorem keepsInterrupt_unlessInterrupted {wait : Wait} {next : World × Progress}
    (h : (w.thread t).interrupted) (hnext : KeepsInterrupt t next) :
    KeepsInterrupt t (wait.unlessInterrupted w next) := by
  unfold unlessInterrupted
  split
  · by_cases ht : wait.thread = t
    · exact .inr ⟨wait, rfl, ht⟩
    · exact .inl (World.interrupted_updateThread h fun hsame => absurd hsame ht)
  · exact hnext

theorem keepsInterrupt_attempt (wait : Wait) (ticket : Ticket) (h : (w.thread t).interrupted) :
    KeepsInterrupt t (wait.attempt ticket w) := by
  cases wait with
  | park u deadline parking =>
      have hsettle : u = t → (parking.settle w.clock deadline (w.thread u)).2.interrupted ∨
          (parking.settle w.clock deadline (w.thread u)).1 = .finished true := by
        rintro rfl
        exact Parking.interrupted_settle w.clock deadline parking h
      have hkept : ∀ {thread : ThreadRecord Action}, (u = t → thread.interrupted) →
          ((w.updateThread u fun _ => thread).thread t).interrupted :=
        fun hthread => World.interrupted_updateThread h hthread
      simp only [attempt]
      split
      · next interrupted thread heq =>
        rw [heq] at hsettle
        cases interrupted with
        | true =>
            by_cases ht : u = t
            · exact .inr ⟨_, rfl, ht⟩
            · exact .inl (hkept fun hsame => absurd hsame ht)
        | false => exact .inl (hkept fun hsame => by simpa using hsettle hsame)
      · next parking' thread hother heq =>
        rw [heq] at hsettle
        refine .inl (hkept fun hsame => (hsettle hsame).resolve_right ?_)
        exact hother true
  | acquire u l =>
      simp only [attempt]
      split
      · next sync hacquire => exact .inl ((Sync.Quiet.of_acquire hacquire).interrupted t h)
      · exact keepsInterrupt_unlessInterrupted h (.inl h)
      · exact .inl h
  | take u q deadline =>
      simp only [attempt]
      split <;> exact .inl h
  | boundedTake u q deadline =>
      simp only [attempt]
      split <;> exact .inl h
  | put u q item =>
      simp only [attempt]
      split <;> exact .inl h
  | scripted u cues plain =>
      simp only [attempt]
      split
      · exact .inl h
      · exact keepsInterrupt_unlessInterrupted h (.inl h)
      · exact .inl h

theorem keepsInterrupt_resume (wait : Wait) (old ticket : Ticket) (h : (w.thread t).interrupted) :
    KeepsInterrupt t (wait.resume old ticket w) := by
  cases wait with
  | park | scripted => exact keepsInterrupt_attempt _ ticket h
  | acquire u l => exact keepsInterrupt_attempt _ ticket h
  | take | boundedTake | put =>
      exact keepsInterrupt_unlessInterrupted h (keepsInterrupt_attempt _ ticket h)

end Wait

/-- Whether an interrupt of thread `t` has been consumed and its actions are about to be looked
for. -/
def Control.heeds (t : ThreadId) : Control → Bool
  | .interrupted wait | .condition wait (.polling _) _ => wait.thread == t
  | _ => false

def Executor.heeds (t : ThreadId) (e : Executor) : Bool :=
  e.control.heeds t || e.stack.any fun frame =>
    match frame with
    | .polling u => u == t
    | _ => false

/-- The executor is about to look for the actions of thread `t`, or runs one of them above the frame
of the poll, where it can be followed. -/
def Executor.Heeds (t : ThreadId) (e : Executor) : Prop :=
  e.control.heeds t ∨ ∃ base, Above (.polling t) base e.stack

theorem Executor.Heeds.heeds {e : Executor} (h : e.Heeds t) : e.heeds t := by
  rcases h with hcontrol | ⟨base, above, below, hstack, -, -⟩
  · simp [Executor.heeds, hcontrol]
  · simp [Executor.heeds, hstack]

namespace Machine

variable {m : Machine} {me : Nat} {e : Executor}

/-- Whether the next step of executor `me` takes an interrupt from thread `t` for itself, or drops
one that was reported or a poll of the thread without looking for actions. -/
def forgets (t : ThreadId) (m : Machine) (me : Nat) : Bool :=
  match m.executors[me]? with
  | none => false
  | some e =>
    match e.control, e.stack with
    | .perform (.thread op), _ => op.disarmed?.any fun name => (m.world.threadNamed name).1 == t
    | .interrupted _, .blocking _ _ :: _ => false
    | .interrupted wait, _ => wait.thread == t
    | .give (.error (.error _)), _ => false
    | .give (.error _), .polling u :: _ => u == t
    | _, _ => false

theorem interrupted_step (he : m.executors[me]? = some e) (hforgets : m.forgets t me = false)
    (h : (m.world.thread t).interrupted) :
    ((m.step me).world.thread t).interrupted ∨
      ∃ e', (m.step me).executors[me]? = some e' ∧ e'.Heeds t := by
  have hdraw : (m.world.drawTicket.2.thread t).interrupted := h
  have hentered : ∀ {stack : List Frame} {result : World × Progress}, KeepsInterrupt t result →
      m.step me = m.put me e.current (afterAttempt stack result.1 result.2) →
      ((m.step me).world.thread t).interrupted ∨
        ∃ e', (m.step me).executors[me]? = some e' ∧ e'.Heeds t := by
    intro stack result hresult hstep
    rw [hstep]
    rcases hresult with hkept | ⟨wait, hreported, hthread⟩
    · left
      simpa [put] using hkept
    · refine .inr ⟨_, executors_put he _ _, .inl ?_⟩
      simp [hreported, afterAttempt, Control.heeds, hthread]
  cases hcalm : e.isCalm m.world with
  | true => exact .inl ((calm_step he hcalm).sync.interrupted t h)
  | false =>
      simp only [Executor.isCalm] at hcalm
      split at hcalm
      · next op hcontrol =>
        left
        simp only [step, he, hcontrol]
        refine op.interrupted_perform _ h fun name hname => ?_
        simpa [forgets, he, hcontrol, hname] using hforgets
      · next op hcontrol =>
        left
        simp only [step, he, hcontrol]
        exact (op.quiet_sync_perform m.world).interrupted t h
      · next wait hcontrol =>
        exact hentered (wait.keepsInterrupt_attempt _ hdraw)
          (by simp only [step, he, hcontrol]; rfl)
      · next wait old wakeAt hcontrol =>
        exact hentered (wait.keepsInterrupt_resume old _ hdraw)
          (by simp only [step, he, hcontrol]; rfl)
      · next wait holds wakeAt hcontrol =>
        have hstep : m.step me = m.put me e.current
            (continueWait me wait (.awake holds) m.world e.stack) := by
          simp only [step, he, hcontrol]
        have hsteps := wait.steps m.world.clock me (.awake holds) m.world.sync
        rcases Sync.Quiet.of_steps hsteps with hkept | ⟨_, hphase, hpolls⟩
        · left
          rw [hstep]
          exact hkept.interrupted t h
        · cases hphase
          by_cases ht : wait.thread = t
          · refine .inr ⟨_, by rw [hstep]; exact executors_put he _ _, .inl ?_⟩
            simp [continueWait, hpolls, Control.heeds, ht]
          · left
            have hworld : (m.step me).world = World.updateThread wait.thread (·.dropInterrupt)
                (m.world.updateSync (·.updateCondition wait.condition Condition.exit)) := by
              simp only [hstep, put, continueWait, hpolls]
              rfl
            rw [hworld]
            exact World.interrupted_updateThread h fun hsame => absurd hsame ht
      · left
        cases hlooks : e.looks? m.world with
        | none => simp [hlooks] at hcalm
        | some poll =>
            obtain ⟨w, hw, hstep⟩ := step_looks he hlooks
            rw [hstep]
            exact World.interrupted_nextAction poll.2 poll.1 (hw.sync.interrupted t h)

private theorem heeds_step_polls {base : List Frame} (he : m.executors[me]? = some e)
    (hpolls : e.polls? m.world = some (t, base)) (hactions : (m.world.thread t).actions ≠ [])
    (hpending : (m.world.thread t).pending) :
    ∃ e', (m.step me).executors[me]? = some e' ∧ e'.Heeds t := by
  obtain ⟨w, hquiet, hstep⟩ := step_polls he hpolls
  obtain ⟨action, rest, hrest⟩ := List.exists_cons_of_ne_nil hactions
  have hactions' : (w.thread t).actions = action :: rest := (hquiet.sync.actions t).trans hrest
  have hpending' : (w.thread t).pending := (hquiet.sync.pending t).trans hpending
  rw [World.startPoll, if_pos hpending', w.nextAction_of_cons base t hactions'] at hstep
  rw [hstep]
  exact ⟨_, executors_put he _ _, .inr ⟨base, above_launch _ action rfl⟩⟩

/-- A poll of thread `t` goes on as long as announced actions are left, or interrupts the thread
when it fails. -/
theorem heeds_step (he : m.executors[me]? = some e) (hforgets : m.forgets t me = false)
    (h : e.Heeds t) (hactions : (m.world.thread t).actions ≠ [])
    (hpending : (m.world.thread t).pending) :
    ((m.step me).world.thread t).interrupted ∨
      ∃ e', (m.step me).executors[me]? = some e' ∧ e'.Heeds t := by
  rcases h with hheeds | ⟨base, habove⟩
  · right
    unfold Control.heeds at hheeds
    split at hheeds
    · next wait hcontrol =>
      obtain rfl : wait.thread = t := by simpa using hheeds
      cases hstack : e.stack with
      | nil => simp [forgets, he, hcontrol, hstack] at hforgets
      | cons frame stack =>
          cases frame with
          | blocking wait' previous =>
              have hpolls : e.polls? m.world = some (wait.thread, .polled wait :: stack) := by
                rw [Executor.polls?, hcontrol, hstack]
              exact heeds_step_polls he hpolls hactions hpending
          | _ => simp [forgets, he, hcontrol, hstack] at hforgets
    · next wait holds wakeAt hcontrol =>
      obtain rfl : wait.thread = t := by simpa using hheeds
      exact heeds_step_polls he (by rw [Executor.polls?, hcontrol]) hactions hpending
    · cases hheeds
  · by_cases hgiven : ∃ outcome, e.control = .give outcome ∧ e.above base.length = [.polling t]
    · obtain ⟨outcome, hcontrol, htop⟩ := hgiven
      obtain ⟨above, below, hstack, hbelow, -⟩ := habove
      obtain rfl : above = [] := by
        have hframes : e.stack = (above ++ [.polling t]) ++ below := by simp [hstack]
        rw [above_eq hframes hbelow] at htop
        simpa using htop
      rw [step_give he hcontrol hstack]
      rcases outcome with (err | _ | _ | _) | y
      · left
        apply interrupted_receive
        have hquiet := (Frame.polling t).quiet_receive m.world below (.error (.error err)) rfl
        exact (hquiet.sync.pending t).trans hpending
      · simp [forgets, he, hcontrol, hstack] at hforgets
      · simp [forgets, he, hcontrol, hstack] at hforgets
      · simp [forgets, he, hcontrol, hstack] at hforgets
      · right
        obtain ⟨action, rest, hrest⟩ := List.exists_cons_of_ne_nil hactions
        have hnext : (Frame.polling t).receive m.world below (.ok y) =
            (m.world.popped t).launch below t action :=
          m.world.nextAction_of_cons below t hrest
        rw [hnext]
        exact ⟨_, executors_put he _ _, .inr ⟨base, above_launch _ action hbelow⟩⟩
    · obtain ⟨e', he', habove'⟩ := above_step he rfl habove fun outcome hcontrol htop =>
        hgiven ⟨outcome, hcontrol, htop⟩
      exact .inr ⟨e', he', .inr ⟨base, habove'⟩⟩

theorem interrupted_of_first (m : Machine) (me : Nat) (hnone : (m.world.thread t).actions = [])
    (hactions : ((m.step me).world.thread t).actions ≠ []) :
    ((m.step me).world.thread t).interrupted := by
  have hqueued : m.submissions me t ≠ [] := by
    intro hsubmissions
    have hstep := m.actions_step me t
    rw [hnone, hsubmissions] at hstep
    simp [hactions] at hstep
  unfold submissions at hqueued
  split at hqueued
  · next op hop =>
    obtain ⟨e, he, hcontrol⟩ := Option.map_eq_some_iff.mp hop
    cases hsubmits : op.isSubmission with
    | false => exact absurd (op.submissions_eq_nil m.world t hsubmits) hqueued
    | true =>
        simp only [step, he, hcontrol] at hactions ⊢
        rcases op.rouses_perform ⟨me, e.current, m.held⟩ m.world hsubmits t with
          hafter | ⟨hsame, -⟩
        · exact hafter
        · exact absurd (hsame.trans hnone) hactions
  · exact absurd rfl hqueued

end Machine

namespace Traffic

variable {x : Traffic}

/-- Queued actions of thread `t` are heeded: the thread is interrupted, or some executor polls them,
or one of those who queued them is about to announce them or to interrupt the thread. -/
def IsHeeded (t : ThreadId) (x : Traffic) : Prop :=
  x.actions t ≠ [] → (x.machine.world.thread t).interrupted ∨
    (∃ e ∈ x.machine.executors, e.Heeds t) ∨
    (t, .marking) ∈ x.senders ∨ (t, .interrupting) ∈ x.senders

private theorem IsHeeded.step (h : x.IsHeeded t) (hannounced : x.IsAnnounced t) {me : Nat}
    (hforgets : x.machine.forgets t me = false) : (x.occur (.move (.step me))).IsHeeded t := by
  intro hactions
  by_cases hnone : x.actions t = []
  · exact .inl (x.machine.interrupted_of_first me hnone hactions)
  -- The executor that takes the step interrupts the thread or polls its actions afterwards.
  have hafter : ∀ {m : Machine}, ((m.world.thread t).interrupted ∨
      ∃ e', m.executors[me]? = some e' ∧ e'.Heeds t) → (m.world.thread t).interrupted ∨
      (∃ e ∈ m.executors, e.Heeds t) ∨
        (t, .marking) ∈ x.senders ∨ (t, .interrupting) ∈ x.senders := by
    rintro m (hinterrupted | ⟨e', he', hheeds⟩)
    · exact .inl hinterrupted
    · exact .inr (.inl ⟨e', List.mem_of_getElem? he', hheeds⟩)
  cases he : x.machine.executors[me]? with
  | none =>
      have hsame : x.machine.step me = x.machine := by simp [Machine.step, he]
      simpa [occur, Machine.move, hsame] using h hnone
  | some e =>
      rcases h hnone with hinterrupted | ⟨e₀, hmem, hheeds⟩ | hsenders
      · exact hafter (Machine.interrupted_step he hforgets hinterrupted)
      · obtain ⟨i, hi⟩ := List.getElem?_of_mem hmem
        by_cases hme : i = me
        · subst hme
          obtain rfl : e₀ = e := Option.some.inj (hi.symm.trans he)
          rcases hannounced hnone with hpending | hmarking
          · exact hafter (Machine.heeds_step he hforgets hheeds hnone hpending)
          · exact .inr (.inr (.inl hmarking))
        · have hkept := Machine.executors_step_of_ne hme hi
          exact .inr (.inl ⟨e₀, List.mem_of_getElem? hkept, hheeds⟩)
      · exact .inr (.inr hsenders)

private theorem IsHeeded.advance (h : x.IsHeeded t) (i : Nat) :
    (x.occur (.advance i)).IsHeeded t := by
  cases hi : x.senders[i]? with
  | none => simpa [occur, hi] using h
  | some sender =>
      obtain ⟨u, signal⟩ := sender
      obtain ⟨hthread, hsenders⟩ := thread_advance (t := t) hi
      have hexecutors : (x.occur (.advance i)).machine.executors = x.machine.executors := by
        simp [Traffic.occur, hi]
      have hnew : ∀ sender, sender ∈ x.senders.set i sender :=
        fun sender => List.mem_of_getElem?
          (List.getElem?_set_self (List.getElem?_eq_some_iff.mp hi).1)
      intro hactions
      rw [actions, hthread] at hactions
      rw [hthread, hsenders, hexecutors]
      -- A sender that neither announces nor interrupts leaves it to the others.
      have hothers : ∀ {thread : ThreadRecord Action} {sender},
          thread.actions = x.actions t →
          ((x.machine.world.thread t).interrupted → thread.interrupted) → thread.actions ≠ [] →
          (u, signal) ≠ (t, .marking) → (u, signal) ≠ (t, .interrupting) →
          thread.interrupted ∨ (∃ e ∈ x.machine.executors, e.Heeds t) ∨
            (t, .marking) ∈ x.senders.set i sender ∨
              (t, .interrupting) ∈ x.senders.set i sender := by
        intro thread sender hsame hkeeps hleft hmarking hinterrupting
        rcases h (hsame ▸ hleft) with hbefore | hheeds | hmem | hmem
        · exact .inl (hkeeps hbefore)
        · exact .inr (.inl hheeds)
        · exact .inr (.inr (.inl (mem_set_of_ne hmem hi hmarking)))
        · exact .inr (.inr (.inr (mem_set_of_ne hmem hi hinterrupting)))
      by_cases hut : u = t
      · subst hut
        rw [if_pos rfl] at hactions ⊢
        cases signal with
        | submitting action => exact .inr (.inr (.inl (hnew _)))
        | marking | waking => exact .inr (.inr (.inr (hnew _)))
        | interrupting => exact .inl rfl
        | entering =>
            refine hothers ?_ ?_ hactions (by simp) (by simp)
            · exact (Signal.actions_step rfl _).2.1
            · exact Signal.keeps_interrupted_run 1 .entering _
        | notifying | leaving | delivered => exact hothers rfl id hactions (by simp) (by simp)
      · rw [if_neg hut] at hactions ⊢
        exact hothers rfl id hactions (by simp [hut]) (by simp [hut])

theorem IsHeeded.occur (h : x.IsHeeded t) (hannounced : x.IsAnnounced t) {event : Event}
    (hforgets : ∀ me, event = .move (.step me) → x.machine.forgets t me = false) :
    (x.occur event).IsHeeded t := by
  cases event with
  | move move =>
      cases move with
      | step me => exact h.step hannounced (hforgets me rfl)
      | tick millis => exact h
  | send u action =>
      intro hactions
      rcases h hactions with hinterrupted | hheeds | hmarking | hinterrupting
      · exact .inl hinterrupted
      · exact .inr (.inl hheeds)
      · exact .inr (.inr (.inl (List.mem_append_left _ hmarking)))
      · exact .inr (.inr (.inr (List.mem_append_left _ hinterrupting)))
  | advance i => exact h.advance i

theorem IsHeeded.follow {events : List Event} (h : x.IsHeeded t) (hannounced : x.IsAnnounced t)
    (hrun : x.along (fun m me => !m.forgets t me) events) : (x.follow events).IsHeeded t := by
  induction events generalizing x with
  | nil => exact h
  | cons event events ih =>
      simp only [along, Bool.and_eq_true] at hrun
      refine ih (h.occur hannounced ?_) (hannounced.occur event) hrun.2
      rintro me rfl
      simpa using hrun.1

theorem IsHeeded.of_quiet (h : x.IsHeeded t) (hquiet : x.isQuiet t) (hactions : x.actions t ≠ []) :
    (x.machine.world.thread t).interrupted ∨ ∃ e ∈ x.machine.executors, e.heeds t := by
  have hdelivered := List.all_eq_true.mp hquiet
  rcases h hactions with hinterrupted | ⟨e, he, hheeds⟩ | hmarking | hinterrupting
  · exact .inl hinterrupted
  · exact .inr ⟨e, he, hheeds.heeds⟩
  · have hsender := hdelivered _ hmarking
    simp at hsender
  · have hsender := hdelivered _ hinterrupting
    simp at hsender

end Traffic

/-- Queued actions are not forgotten. In every run in which nobody takes the interrupts of thread
`t` for himself or drops them, and no poll of the thread is ended by a panic: when nobody is engaged
in submitting an action to the thread and actions are queued, the thread is interrupted, or some
executor is about to look for its actions or running one of them. -/
theorem queued_actions_heeded (script : Script) (events : List Event) (t : ThreadId)
    (hrun : script.traffic.along (fun m me => !m.forgets t me) events) :
    let x := script.traffic.follow events
    x.isQuiet t → x.actions t ≠ [] →
      (x.machine.world.thread t).interrupted ∨ ∃ e ∈ x.machine.executors, e.heeds t := by
  intro x hquiet hactions
  have hannounced : script.traffic.IsAnnounced t :=
    fun hqueued => absurd (script.actions_traffic t) hqueued
  have hheeded : script.traffic.IsHeeded t :=
    fun hqueued => absurd (script.actions_traffic t) hqueued
  exact (hheeded.follow hannounced hrun).of_quiet hquiet hactions

def sleeper : Script where
  options := {}
  watched := []
  steps := [.mk false (.call (.sleep "a" .forever))]

def sleeperEvents : List Event :=
  List.replicate 2 (.move (.step 0)) ++
    [.send 0 (.callback "call" (.mk [] none none .null))] ++ List.replicate 6 (.advance 0)

def nappingAction : Script where
  options := {}
  watched := []
  steps := [
    .mk false (.thread (.submit "a" "nap"
      (.mk [.mk false (.call (.sleep "a" .forever))] none none .null))),
    .mk false (.thread (.submit "a" "late" (.mk [] none none .null))),
    .mk false (.call (.sleep "a" .forever))]

def nappingEvents : List Event :=
  List.replicate 11 (.move (.step 0))

theorem queued_actions_heeded_sleeper :
    let x := sleeper.traffic.follow sleeperEvents
    let y := nappingAction.traffic.follow nappingEvents
    (x.machine.world.thread 0).interrupted ∧ ∃ e ∈ y.machine.executors, e.heeds 0 := by
  intro x y
  have hx : sleeper.traffic.along (fun m me => !m.forgets 0 me) sleeperEvents := by
    decide +kernel
  have hy : nappingAction.traffic.along (fun m me => !m.forgets 0 me) nappingEvents := by
    decide +kernel
  have hqueued : (x.actions 0).length = 1 := by decide +kernel
  have hqueued' : (y.actions 0).length = 1 := by decide +kernel
  have hidle : ∀ e ∈ x.machine.executors, e.heeds 0 = false := by decide +kernel
  have hquiet' : (y.machine.world.thread 0).interrupted = false := by decide +kernel
  constructor
  · rcases queued_actions_heeded sleeper sleeperEvents 0 hx (by decide +kernel)
      (by simp [← List.length_pos_iff, x, hqueued]) with hinterrupted | ⟨e, he, hheeds⟩
    · exact hinterrupted
    · rw [hidle e he] at hheeds
      cases hheeds
  · rcases queued_actions_heeded nappingAction nappingEvents 0 hy (by decide +kernel)
      (by simp [← List.length_pos_iff, y, hqueued']) with hinterrupted | hheeds
    · rw [hquiet'] at hinterrupted
      cases hinterrupted
    · exact hheeds

/-- The thread is parked with an action queued and is not interrupted, though nobody has taken its
interrupt. -/
theorem nappingAction_not_interrupted :
    let x := nappingAction.traffic.follow nappingEvents
    nappingAction.traffic.along (fun m me => !m.forgets 0 me) nappingEvents ∧ x.isQuiet 0 ∧
      (∃ e wait ticket wakeAt, x.machine.executors[0]? = some e ∧
        e.control = .parked wait ticket wakeAt ∧ wait.thread = 0) ∧
      (x.actions 0).length = 1 ∧ (x.machine.world.thread 0).interrupted = false := by
  intro x
  have hrun : nappingAction.traffic.along (fun m me => !m.forgets 0 me) nappingEvents := by
    decide +kernel
  have hquiet : x.isQuiet 0 := by decide +kernel
  have hqueued : (x.actions 0).length = 1 := by decide +kernel
  have hflag : (x.machine.world.thread 0).interrupted = false := by decide +kernel
  exact ⟨hrun, hquiet, ⟨_, _, _, _, rfl, rfl, rfl⟩, hqueued, hflag⟩

end Session

end RubyRuntime
