import RubyRuntime.Proofs.Safepoint.Deliveries
import RubyRuntime.Proofs.Session.Marks

/-!
# Polls

The main result is that the actions of a thread are started in the order in which they were queued,
each of them once, whoever submits them and whatever they do. A poll that has begun is followed by
the frame that it leaves on the stack while an action runs: it goes on after an action that has
succeeded, and returns the failure of the first one that has not.
-/
namespace RubyRuntime

theorem Signal.interrupted_deliver {α : Type} (thread : ThreadRecord α) :
    ((Signal.interrupting : Signal α).deliver thread).interrupted = true := by
  cases hbusy : thread.parker.busy <;>
    simp [deliver, run, step, ThreadRecord.interrupt, ThreadRecord.setBusy, ThreadRecord.notify,
      hbusy]

namespace Session

/-- What a poll gives whose actions have come to some outcomes: the failure of the last one, before
which all have succeeded, or nothing in particular. -/
inductive PollResult : List Outcome → Outcome → Prop where
  | done {outcomes : List Outcome} (h : ∀ o ∈ outcomes, o.isOk) : PollResult outcomes (.ok .unit)
  | failed {outcomes : List Outcome} {failure : Failure} (h : ∀ o ∈ outcomes, o.isOk) :
    PollResult (outcomes ++ [.error failure]) (.error failure)

namespace Machine

def handed? (me height : Nat) (m : Machine) : Option Outcome :=
  m.executors[me]?.bind fun e =>
    match e.control, e.above height with
    | .give outcome, [.polling _] => some outcome
    | _, _ => none

/-- The poll of thread `t` that executor `me` has made on `base` is running an action, all those
before having come to the given outcomes, or has returned. -/
def Polls (t : ThreadId) (base : List Frame) (me : Nat) (outcomes : List Outcome) (m : Machine) :
    Prop :=
  ∃ e, m.executors[me]? = some e ∧
    ((∀ o ∈ outcomes, o.isOk) ∧ Above (.polling t) base e.stack ∨
      e.stack.map Frame.shape = base.map Frame.shape ∧
        ∃ outcome, e.control = .give outcome ∧ PollResult outcomes outcome)

variable {m : Machine} {me : Nat} {e : Executor} {t : ThreadId} {base below : List Frame}
  {outcomes : List Outcome}

theorem above_launch (w : World) (action : Action)
    (hbelow : below.map Frame.shape = base.map Frame.shape) :
    Above (.polling t) base (w.launch below t action).stack := by
  cases action with
  | callback label body =>
      have hkind : ∀ u, BodyKind.callback [("action", .text label),
          ("on", .textOrNull (w.threadLabel? t))] ≠ .thread u := by simp
      exact (w.launched_startBody (.polling t :: below) body hkind).above (by simp) hbelow
  | raises | kills => exact ⟨[], below, rfl, hbelow, by simp⟩

private theorem polls_nextAction (he : m.executors[me]? = some e) (w : World)
    (hbelow : below.map Frame.shape = base.map Frame.shape) (hok : ∀ o ∈ outcomes, o.isOk) :
    (m.put me e.current (w.nextAction below t)).Polls t base me outcomes := by
  refine ⟨_, executors_put he _ _, ?_⟩
  cases hactions : (w.thread t).actions with
  | nil =>
      rw [w.nextAction_of_nil below t hactions]
      exact .inr ⟨hbelow, _, rfl, .done hok⟩
  | cons action rest =>
      rw [w.nextAction_of_cons below t hactions]
      exact .inl ⟨hok, above_launch _ action hbelow⟩

theorem polls_begun (he : m.executors[me]? = some e)
    (hpolls : e.polls? m.world = some (t, base)) : (m.step me).Polls t base me [] := by
  obtain ⟨w, -, hstep⟩ := step_polls he hpolls
  rw [hstep, World.startPoll]
  split
  · exact polls_nextAction he w rfl (by simp)
  · exact ⟨_, executors_put he _ _, .inr ⟨rfl, _, rfl, .done (by simp)⟩⟩

private theorem handed?_eq_some {above : List Frame} {outcome : Outcome}
    (he : m.executors[me]? = some e) (hstack : e.stack = above ++ .polling t :: below)
    (hbelow : below.map Frame.shape = base.map Frame.shape) :
    m.handed? me base.length = some outcome ↔ e.control = .give outcome ∧ above = [] := by
  have hframes : e.stack = (above ++ [.polling t]) ++ below := by simp [hstack]
  simp only [handed?, he, Option.bind_some, above_eq hframes hbelow]
  cases above with
  | nil => cases e.control <;> simp
  | cons first above => cases e.control <;> simp

private theorem polls_receive {outcome : Outcome} (he : m.executors[me]? = some e)
    (hbelow : below.map Frame.shape = base.map Frame.shape) (hok : ∀ o ∈ outcomes, o.isOk) :
    (m.put me e.current ((Frame.polling t).receive m.world below outcome)).Polls t base me
      (outcomes ++ [outcome]) := by
  rcases outcome with failure | y
  · refine ⟨_, executors_put he _ _, ?_⟩
    cases failure <;> exact .inr ⟨hbelow, _, rfl, .failed hok⟩
  · refine polls_nextAction he m.world hbelow fun o ho => ?_
    rcases List.mem_append.mp ho with ho | ho
    · exact hok o ho
    · rw [List.mem_singleton.mp ho]
      rfl

private theorem Polls.open_cases (h : m.Polls t base me outcomes)
    (hopen : m.returned? me base.length = none) :
    ∃ e, m.executors[me]? = some e ∧ (∀ o ∈ outcomes, o.isOk) ∧
      ((∃ outcome below, m.handed? me base.length = some outcome ∧ e.control = .give outcome ∧
          e.stack = .polling t :: below ∧ below.map Frame.shape = base.map Frame.shape) ∨
        m.handed? me base.length = none ∧
          ∃ e', (m.step me).executors[me]? = some e' ∧ Above (.polling t) base e'.stack) := by
  obtain ⟨e, he, ⟨hok, habove⟩ | ⟨hbelow, outcome, hcontrol, -⟩⟩ := h
  · refine ⟨e, he, hok, ?_⟩
    cases hhanded : m.handed? me base.length with
    | some outcome =>
        obtain ⟨above, below, hstack, hbelow, -⟩ := habove
        obtain ⟨hcontrol, rfl⟩ := (handed?_eq_some he hstack hbelow).mp hhanded
        exact .inl ⟨outcome, below, rfl, hcontrol, hstack, hbelow⟩
    | none =>
        refine .inr ⟨rfl, above_step he rfl habove ?_⟩
        intro outcome hcontrol htop
        simp [handed?, he, hcontrol, htop] at hhanded
  · rw [returned?_of_base he hbelow hcontrol] at hopen
    cases hopen

theorem Polls.step_self (h : m.Polls t base me outcomes)
    (hopen : m.returned? me base.length = none) :
    (m.step me).Polls t base me (outcomes ++ (m.handed? me base.length).toList) := by
  obtain ⟨e, he, hok, ⟨outcome, below, hhanded, hcontrol, hstack, hbelow⟩ |
    ⟨hhanded, e', he', habove⟩⟩ := h.open_cases hopen
  · rw [hhanded, step_give he hcontrol hstack]
    exact polls_receive he hbelow hok
  · rw [hhanded]
    exact ⟨e', he', .inl ⟨by simpa using hok, habove⟩⟩

theorem Polls.step_of_ne {i : Nat} (h : m.Polls t base me outcomes) (hi : i ≠ me) :
    (m.step i).Polls t base me outcomes := by
  obtain ⟨e, he, hstage⟩ := h
  exact ⟨e, executors_step_of_ne (Ne.symm hi) he, hstage⟩

theorem interrupted_receive (w : World) (stack : List Frame) (t : ThreadId) (err : Error)
    (h : (((Frame.polling t).receive w stack (.error (.error err))).world.thread t).pending) :
    (((Frame.polling t).receive w stack (.error (.error err))).world.thread t).interrupted := by
  cases hpending : (w.thread t).pending with
  | true =>
      have hthread : ((Frame.polling t).receive w stack (.error (.error err))).world.thread t =
          (Signal.interrupting : Signal Action).deliver (w.thread t) := by
        simp only [Frame.receive, hpending, if_true]
        exact (Sync.thread_updateThread w.sync t t _).trans (if_pos rfl)
      rw [hthread]
      exact Signal.interrupted_deliver _
  | false =>
      have hthread : ((Frame.polling t).receive w stack (.error (.error err))).world.thread t =
          w.thread t := by
        simp only [Frame.receive, hpending]
        rfl
      rw [hthread, hpending] at h
      cases h

theorem Polls.of_executors {m' : Machine} (h : m.Polls t base me outcomes)
    (hexecutors : m'.executors = m.executors) : m'.Polls t base me outcomes := by
  obtain ⟨e, he, hstage⟩ := h
  exact ⟨e, hexecutors ▸ he, hstage⟩

theorem Polls.returned (h : m.Polls t base me outcomes) :
    (∀ o ∈ outcomes.dropLast, o.isOk) ∧
      ∀ failure, m.returned? me base.length = some (.error failure) ↔
        outcomes.getLast? = some (.error failure) := by
  have hearlier : (∀ o ∈ outcomes, o.isOk) → ∀ o ∈ outcomes.dropLast, o.isOk :=
    fun hok o ho => hok o ((List.dropLast_sublist _).subset ho)
  obtain ⟨e, he, ⟨hok, habove⟩ | ⟨hbelow, outcome, hcontrol, hresult⟩⟩ := h
  · refine ⟨hearlier hok, fun failure => ?_⟩
    simp [returned?_of_above he habove, getLast?_ne_error hok failure]
  · rw [returned?_of_base he hbelow hcontrol]
    cases hresult with
    | done hok => exact ⟨hearlier hok, fun failure => by simp [getLast?_ne_error hok failure]⟩
    | failed hok => exact ⟨by simpa using hok, fun failure => by simp⟩

/-- A poll that returns without a failure leaves no action, and one that returns an error has
interrupted its thread again if actions are announced. -/
theorem Polls.leaves {outcome : Outcome} (h : m.Polls t base me outcomes)
    (hopen : m.returned? me base.length = none)
    (hreturned : (m.step me).returned? me base.length = some outcome) :
    (outcome.isOk → ((m.step me).world.thread t).actions = []) ∧
      ∀ err, outcome = .error (.error err) → ((m.step me).world.thread t).pending →
        ((m.step me).world.thread t).interrupted := by
  obtain ⟨e, he, hok, ⟨handed, below, hhanded, hcontrol, hstack, hbelow⟩ |
    ⟨hhanded, e', he', habove⟩⟩ := h.open_cases hopen
  · rw [step_give he hcontrol hstack] at hreturned ⊢
    have hput := executors_put he e.current ((Frame.polling t).receive m.world below handed)
    rcases handed with failure | y
    · -- The poll returns the failure of the action.
      have hgive : (m.put me e.current ((Frame.polling t).receive m.world below
          (.error failure))).returned? me base.length = some (.error failure) := by
        cases failure <;> exact returned?_of_base hput hbelow rfl
      cases hgive.symm.trans hreturned
      refine ⟨nofun, ?_⟩
      rintro err heq hpending
      cases heq
      exact interrupted_receive m.world below t err hpending
    · -- The poll looks for the next action, and returns only if there is none.
      cases hactions : (m.world.thread t).actions with
      | nil =>
          have hnext : (Frame.polling t).receive m.world below (.ok y) =
              m.world.nextAction below t := rfl
          have hover := m.world.nextAction_of_nil below t hactions
          rw [hnext, hover] at hput hreturned
          cases (returned?_of_base hput hbelow rfl).symm.trans hreturned
          refine ⟨fun _ => ?_, nofun⟩
          have hactions' := (m.world.quiet_nextAction below t).sync.actions t
          rw [hnext, World.thread, put, hactions', ← World.thread, World.thread_popped]
          simp [ThreadRecord.popAction, hactions]
      | cons action rest =>
          have hnext : (Frame.polling t).receive m.world below (.ok y) =
              (m.world.popped t).launch below t action :=
            m.world.nextAction_of_cons below t hactions
          rw [hnext] at hput hreturned
          rw [returned?_of_above hput (above_launch _ action hbelow)] at hreturned
          cases hreturned
  · rw [returned?_of_above he' habove] at hreturned
    cases hreturned

theorem starts?_of_polls (he : m.executors[me]? = some e)
    (hpolls : e.polls? m.world = some (t, base)) :
    m.starts? me t =
      if (m.world.thread t).pending then (m.world.thread t).actions.head? else none := by
  simp only [starts?, he, Option.bind_some, Executor.looks?, hpolls]
  cases (m.world.thread t).pending <;> simp

theorem launch_of_starts {action : Action} (h : m.starts? me t = some action) :
    ∃ e base w, m.executors[me]? = some e ∧
      m.step me = m.put me e.current (World.launch w base t action) := by
  unfold starts? at h
  split at h
  · next u base hlooks =>
    obtain ⟨e, he, hlooks⟩ := Option.bind_eq_some_iff.mp hlooks
    split at h
    · next hut =>
      subst hut
      obtain ⟨w, hquiet, hstep⟩ := step_looks he hlooks
      obtain ⟨rest, hactions⟩ := List.head?_eq_some_iff.mp h
      have hactions' : (w.thread u).actions = action :: rest :=
        (hquiet.sync.actions u).trans hactions
      exact ⟨e, base, w.popped u, he, hstep.trans (by rw [w.nextAction_of_cons base u hactions'])⟩
    · cases h
  · cases h

end Machine

namespace Traffic

def outcomes (me height : Nat) (x : Traffic) : Event → List Outcome
  | .move (.step i) => if i = me then (x.machine.handed? me height).toList else []
  | _ => []

def along (p : Machine → Nat → Bool) : Traffic → List Event → Bool
  | _, [] => true
  | x, event :: events =>
    (match event with
      | .move (.step i) => p x.machine i
      | _ => true) && (x.occur event).along p events

variable {x : Traffic} {t : ThreadId} {base : List Frame} {me : Nat} {os : List Outcome}

private theorem executors_occur {event : Event} (me height : Nat)
    (h : ¬ ∃ i, event = .move (.step i)) :
    (x.occur event).machine.executors = x.machine.executors ∧ x.outcomes me height event = [] := by
  cases event with
  | move move =>
      cases move with
      | step i => exact absurd ⟨i, rfl⟩ h
      | tick millis => exact ⟨rfl, rfl⟩
  | send u action => exact ⟨rfl, rfl⟩
  | advance i =>
      refine ⟨?_, rfl⟩
      simp only [occur]
      split <;> rfl

theorem polls_follow {events : List Event} (h : x.machine.Polls t base me os)
    (hrun : x.along (Machine.isOpen me base.length) events) :
    (x.follow events).machine.Polls t base me
      (os ++ x.log (outcomes me base.length) events) := by
  -- Senders and other executors cannot touch the frames of the poll.
  induction events generalizing x os with
  | nil => simpa [log, follow] using h
  | cons event events ih =>
      simp only [along, Bool.and_eq_true] at hrun
      obtain ⟨hevent, hrun⟩ := hrun
      have hnext : (x.occur event).machine.Polls t base me
          (os ++ x.outcomes me base.length event) := by
        by_cases hstep : ∃ i, event = .move (.step i)
        · obtain ⟨i, rfl⟩ := hstep
          simp only [outcomes]
          split
          · next hi =>
            subst hi
            exact h.step_self (by simpa [Machine.isOpen] using hevent)
          · next hi =>
            rw [List.append_nil]
            exact h.step_of_ne hi
        · obtain ⟨hexecutors, hnone⟩ := executors_occur (x := x) me base.length hstep
          rw [hnone, List.append_nil]
          exact h.of_executors hexecutors
      simpa [log, follow] using ih hnext hrun

end Traffic

/-- The actions of a thread are started in the order in which they were queued, each of them once,
and what is queued is what has not been started. Unless somebody is engaged in submitting an action
to the thread, queued actions are announced, and so a poll that begins starts the oldest one. A poll
goes on until an action fails, and returns the failure of that action. If it leaves actions in the
queue, and nobody is engaged in submitting one, it has failed, and with an error the thread is left
interrupted. -/
theorem actions_start_in_order (script : Script) (events : List Event) (t : ThreadId) :
    let x := script.traffic.follow events
    script.traffic.log (Traffic.queues t) events =
        script.traffic.log (Traffic.starts t) events ++ x.actions t ∧
      (x.isQuiet t → x.actions t ≠ [] → (x.machine.world.thread t).pending) ∧
      (∀ me action, x.machine.starts? me t = some action →
        ∃ e base w, x.machine.executors[me]? = some e ∧
          x.machine.step me = x.machine.put me e.current (World.launch w base t action)) ∧
      ∀ me e base, x.machine.executors[me]? = some e → e.polls? x.machine.world = some (t, base) →
        (x.isQuiet t → x.machine.starts? me t = (x.actions t).head?) ∧
          ∀ later, (x.occur (.move (.step me))).along (Machine.isOpen me base.length) later →
            let y := (x.occur (.move (.step me))).follow later
            let outcomes := (x.occur (.move (.step me))).log
              (Traffic.outcomes me base.length) later
            let last := y.occur (.move (.step me))
            (∀ o ∈ outcomes.dropLast, o.isOk) ∧
              (∀ failure, y.machine.returned? me base.length = some (.error failure) ↔
                outcomes.getLast? = some (.error failure)) ∧
              (y.machine.returned? me base.length = none →
                ∀ outcome, last.machine.returned? me base.length = some outcome →
                  last.isQuiet t → last.actions t ≠ [] → ∃ failure, outcome = .error failure ∧
                    ∀ err, failure = .error err → (last.machine.world.thread t).interrupted) := by
  intro x
  have hstart : script.traffic.IsAnnounced t :=
    fun hactions => absurd (script.actions_traffic t) hactions
  have hannounced : x.IsAnnounced t := hstart.follow events
  refine ⟨?_, hannounced.pending, fun me action => Machine.launch_of_starts, ?_⟩
  · have hactions := script.traffic.actions_follow t events
    rwa [script.actions_traffic, List.nil_append] at hactions
  · intro me e base he hpolls
    refine ⟨fun hquiet => ?_, fun later hrun => ?_⟩
    · rw [Machine.starts?_of_polls he hpolls]
      split
      · rfl
      · next hpending =>
        cases hactions : x.actions t with
        | nil => rfl
        | cons action rest => exact absurd (hannounced.pending hquiet (by simp [hactions])) hpending
    · intro y outcomes last
      have hfollow := Traffic.polls_follow (Machine.polls_begun he hpolls) hrun
      rw [List.nil_append] at hfollow
      obtain ⟨hok, hreturned⟩ := hfollow.returned
      refine ⟨hok, hreturned, fun hopen outcome hlast hquiet hactions => ?_⟩
      obtain ⟨hempty, hinterrupted⟩ := hfollow.leaves hopen hlast
      have hpending : (last.machine.world.thread t).pending :=
        (((hannounced.occur _).follow later).occur _).pending hquiet hactions
      cases outcome with
      | ok result => exact absurd (hempty rfl) hactions
      | error failure =>
          refine ⟨failure, rfl, fun err herr => ?_⟩
          exact hinterrupted err (by rw [herr]) hpending

/-- A thread polls with three actions queued: the first one polls again, the second one kills the
thread, and the third one stays behind. -/
def nestedPolls : Script where
  options := {}
  watched := []
  steps := [
    .mk false (.thread (.submit "main" "outer"
      (.mk [.mk false (.call (.poll "main"))] none none .null))),
    .mk false (.thread (.kill "main")),
    .mk false (.thread (.submit "main" "late" (.mk [] none none .null))),
    .mk false (.call (.poll "main"))]

/-- Somebody queues one more action before the thread polls, and announces it only after the poll
has started the first one. The thread is then about to poll again. -/
def crossedEvents : List Event :=
  List.replicate 9 (.move (.step 0)) ++ [.send 0 (.callback "stray" (.mk [] none none .null)),
    .advance 0, .move (.step 0)] ++ List.replicate 5 (.advance 0)

theorem actions_start_in_order_crossed :
    let x := nestedPolls.traffic.follow crossedEvents
    let y := x.occur (.move (.step 0))
    let last := y.occur (.move (.step 0))
    x.isQuiet 0 ∧ (x.actions 0).length = 3 ∧
      (nestedPolls.traffic.log (Traffic.queues 0) crossedEvents).length =
        (nestedPolls.traffic.log (Traffic.starts 0) crossedEvents).length + 3 ∧
      (x.machine.world.thread 0).pending ∧
      x.machine.starts? 0 0 = some .kills ∧
      y.machine.returned? 0 7 = none ∧
      last.machine.returned? 0 7 = some (.error (.error .killed)) ∧
      (y.log (Traffic.outcomes 0 7) [.move (.step 0)]).getLast? =
        some (.error (.error .killed)) ∧
      (last.actions 0).length = 2 ∧ (last.machine.world.thread 0).interrupted := by
  intro x y last
  have hquiet : x.isQuiet 0 := by decide +kernel
  have hlength : (x.actions 0).length = 3 := by decide +kernel
  have hnext : (last.actions 0).length = 2 := by decide +kernel
  have hopen : y.machine.returned? 0 7 = none := rfl
  have hreturned : last.machine.returned? 0 7 = some (.error (.error .killed)) := rfl
  have hstarts : x.machine.starts? 0 0 = some .kills := rfl
  obtain ⟨e, he, hpolls, hheight⟩ : ∃ e, x.machine.executors[0]? = some e ∧
      e.polls? x.machine.world = some (0, .showing .null :: e.stack) ∧ e.stack.length = 6 :=
    ⟨_, rfl, rfl, rfl⟩
  obtain ⟨hqueued, hpending, -, hpoll⟩ := actions_start_in_order nestedPolls crossedEvents 0
  obtain ⟨-, hrun⟩ := hpoll 0 e _ he hpolls
  rw [List.length_cons, hheight] at hrun
  obtain ⟨-, -, hleaves⟩ := hrun [] rfl
  obtain ⟨-, hfails, -⟩ := hrun [.move (.step 0)] (by decide +kernel)
  have hactions : x.actions 0 ≠ [] := by simp [← List.length_pos_iff, hlength]
  have hremain : last.actions 0 ≠ [] := by simp [← List.length_pos_iff, hnext]
  obtain ⟨failure, hfailure, hinterrupted⟩ :=
    hleaves hopen _ hreturned (by decide +kernel) hremain
  cases hfailure
  refine ⟨hquiet, hlength, ?_, hpending hquiet hactions, hstarts, hopen, hreturned,
    (hfails _).mp hreturned, hnext, hinterrupted _ rfl⟩
  rw [hqueued, List.length_append, hlength]

end Session

end RubyRuntime
