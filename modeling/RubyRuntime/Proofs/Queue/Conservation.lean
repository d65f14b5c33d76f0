import RubyRuntime.Proofs.Queue.Dealings
import RubyRuntime.Proofs.Session.Marks

/-!
# Queues neither lose nor invent items

The main result is that the items that a queue has accepted are those that it has given or dropped
and then those that it holds, in the same order, after any run. Puts and takes are followed through
interruptions and the actions that run meanwhile: a put that returns has accepted its item once or
not at all, as its result says, and a call that fails has dealt nothing.
-/
namespace RubyRuntime

instance {α : Type} : Append (Dealing α) where
  append d d' := { accepted := d.accepted ++ d'.accepted, removed := d.removed ++ d'.removed }

namespace Dealing

variable {α : Type} (d : Dealing α)

@[simp] theorem append_nothing : d ++ {} = d :=
  Dealing.ext (List.append_nil _) (List.append_nil _)

@[simp] theorem nothing_append : {} ++ d = d :=
  rfl

end Dealing

namespace Session

namespace Wait

def queue? : Wait → Option QueueRef
  | take _ q _ => some (.unbounded q)
  | boundedTake _ q _ | put _ q _ => some (.bounded q)
  | park _ _ _ | acquire _ _ | scripted _ _ _ => none

/-- What a put or a take has dealt that has come to an outcome: one that fails has dealt nothing. -/
def dealt? : Wait → Outcome → Option (Dealing Value)
  | put _ _ item, .ok (.flag true) => some { accepted := [item] }
  | put _ _ _, .ok (.flag false) => some {}
  | take _ _ _, .ok (.taken (some (.item item))) => some { removed := [item] }
  | take _ _ _, .ok (.taken _) => some {}
  | boundedTake _ _ _, .ok (.taken (some (.item item))) => some { removed := [item] }
  | boundedTake _ _ _, .ok (.taken _) => some {}
  | _, .error _ => some {}
  | _, .ok _ => none

variable {wait : Wait} {r : QueueRef}

theorem isQueueing_of_queue? (h : wait.queue? = some r) : wait.isQueueing := by
  cases wait <;> first | rfl | cases h

theorem dealt?_error (wait : Wait) (failure : Failure) :
    wait.dealt? (.error failure) = some {} := by
  cases wait <;> rfl

theorem dealing_parked (wait wait' : Wait) (ticket : Ticket) (wakeAt : Option Nat) :
    wait.dealing (.parked wait' ticket wakeAt) = fun _ => {} := by
  cases wait <;> rfl

def Answers (wait : Wait) (r : QueueRef) (progress : Progress) : Prop :=
  (∃ y, progress = .done y ∧ wait.dealt? (.ok y) = some (wait.dealing progress r)) ∨
    (∃ ticket wakeAt, progress = .parked wait ticket wakeAt) ∨ progress = .interrupted wait

theorem answers_attempt (h : wait.queue? = some r) (ticket : Ticket) (w : World) :
    wait.Answers r (wait.attempt ticket w).2 := by
  cases wait with
  | park | acquire | scripted => cases h
  | take t q deadline =>
      cases h
      simp only [attempt]
      split
      · next result queue htake =>
        refine .inl ⟨_, rfl, ?_⟩
        simp only [dealing, QueueRef.only_self]
        rcases result with _ | _ | _ <;> rfl
      · exact .inr (.inl ⟨_, _, rfl⟩)
  | boundedTake t q deadline =>
      cases h
      simp only [attempt]
      split
      · next result queue htake =>
        refine .inl ⟨_, rfl, ?_⟩
        simp only [dealing, QueueRef.only_self]
        rcases result with _ | _ | _ <;> rfl
      · exact .inr (.inl ⟨_, _, rfl⟩)
  | put t q item =>
      cases h
      simp only [attempt]
      split
      · next accepted queue hput =>
        refine .inl ⟨_, rfl, ?_⟩
        simp only [dealing, QueueRef.only_self]
        cases accepted <;> rfl
      · exact .inr (.inl ⟨_, _, rfl⟩)

theorem answers_resume (h : wait.queue? = some r) (old ticket : Ticket) (w : World) :
    wait.Answers r (wait.resume old ticket w).2 := by
  obtain ⟨w', -, hresume⟩ := resume_eq (isQueueing_of_queue? h) old ticket w
  rw [hresume]
  unfold unlessInterrupted
  split
  · exact .inr (.inr rfl)
  · exact answers_attempt h ticket w'

end Wait

/-- Where a put or a take is that was called on `base` and has dealt `d` so far. -/
inductive QueueStage (wait : Wait) (base : List Frame) :
    Dealing Value → Control → List Frame → Prop where
  | trying {control : Control} {previous : Status} {below : List Frame}
    (hcontrol : control = .attempt wait ∨ (∃ ticket wakeAt, control = .parked wait ticket wakeAt) ∨
      control = .interrupted wait) (hbelow : below.map Frame.shape = base.map Frame.shape) :
    QueueStage wait base {} control (.blocking wait previous :: below)
  | polling {control : Control} {stack : List Frame} (habove : Above (.polled wait) base stack) :
    QueueStage wait base {} control stack
  | answered {d : Dealing Value} {outcome : Outcome} {previous : Status} {below : List Frame}
    (hdealt : wait.dealt? outcome = some d)
    (hbelow : below.map Frame.shape = base.map Frame.shape) :
    QueueStage wait base d (.give outcome) (.blocking wait previous :: below)
  | returned {d : Dealing Value} {outcome : Outcome} {below : List Frame}
    (hdealt : wait.dealt? outcome = some d)
    (hbelow : below.map Frame.shape = base.map Frame.shape) :
    QueueStage wait base d (.give outcome) below

def areBlocking : List Frame → Bool
  | [.blocking _ _] => true
  | _ => false

namespace Machine

/-- What the next step of executor `i` deals for the call that executor `me` has made with `height`
frames on its stack. What its actions deal meanwhile does not count. -/
def ownDealing (me height : Nat) (r : QueueRef) (m : Machine) (i : Nat) : Dealing Value :=
  match m.executors[me]? with
  | some e => if i = me && areBlocking (e.above height) then e.dealing m.world r else {}
  | none => {}

def own (me height : Nat) (r : QueueRef) (m : Machine) (moves : List Move) : Dealing Value where
  accepted := m.log (fun m i => (m.ownDealing me height r i).accepted) moves
  removed := m.log (fun m i => (m.ownDealing me height r i).removed) moves

/-- Executor `me` is in a stage of the put or take that it has made on `base`. -/
def Calls (wait : Wait) (base : List Frame) (me : Nat) (d : Dealing Value) (m : Machine) : Prop :=
  ∃ e, m.executors[me]? = some e ∧ QueueStage wait base d e.control e.stack

variable {wait : Wait} {base below : List Frame} {me : Nat} {d : Dealing Value} {r : QueueRef}
  {m : Machine} {e : Executor}

private theorem calls_put {task : Task} (he : m.executors[me]? = some e)
    (h : QueueStage wait base d task.control task.stack) :
    (m.put me e.current task).Calls wait base me d :=
  ⟨_, executors_put he _ _, h⟩

private theorem stage_afterAttempt {previous : Status} {progress : Progress} (w : World)
    (hbelow : below.map Frame.shape = base.map Frame.shape) (h : wait.Answers r progress) :
    QueueStage wait base (wait.dealing progress r)
      (afterAttempt (.blocking wait previous :: below) w progress).control
      (afterAttempt (.blocking wait previous :: below) w progress).stack := by
  rcases h with ⟨y, rfl, hdealt⟩ | ⟨ticket, wakeAt, rfl⟩ | rfl
  · exact .answered hdealt hbelow
  · rw [Wait.dealing_parked]
    exact .trying (.inr (.inl ⟨ticket, wakeAt, rfl⟩)) hbelow
  · rw [Wait.dealing_interrupted]
    exact .trying (.inr (.inr rfl)) hbelow

private theorem stage_startPoll (w : World)
    (hbelow : below.map Frame.shape = base.map Frame.shape) :
    QueueStage wait base {} (w.startPoll (.polled wait :: below) wait.thread).control
      (w.startPoll (.polled wait :: below) wait.thread).stack := by
  have hlaunched := w.launched_startPoll (.polled wait :: below) wait.thread
  obtain ⟨above, below', hstack, hbelow', hinner⟩ :=
    (hlaunched.stands.mono fun f hf => Frame.isInner_of_isOrdinary hf).above (by simp)
  exact .polling ⟨above, below', hstack, hbelow'.trans hbelow, hinner⟩

private theorem stage_receive_polled (w : World) (outcome : Outcome) (hwait : wait.isQueueing)
    (hbelow : below.map Frame.shape = base.map Frame.shape) :
    QueueStage wait base {} ((Frame.polled wait).receive w below outcome).control
      ((Frame.polled wait).receive w below outcome).stack := by
  have hresumed : resumed wait below = below := by
    cases wait <;> first | rfl | cases hwait
  rcases outcome with (e | _ | _ | _) | y
  · simp only [Frame.receive, hresumed]
    exact .returned (wait.dealt?_error _) hbelow
  · exact .returned (wait.dealt?_error _) hbelow
  · exact .returned (wait.dealt?_error _) hbelow
  · exact .returned (wait.dealt?_error _) hbelow
  · simp only [Frame.receive, hresumed]
    exact .trying (.inl rfl) hbelow

private theorem ownDealing_of_above {frames : List Frame} (he : m.executors[me]? = some e)
    (hstack : e.stack = frames ++ below) (hbelow : below.map Frame.shape = base.map Frame.shape) :
    m.ownDealing me base.length r me =
      if areBlocking frames then e.dealing m.world r else {} := by
  simp [ownDealing, he, above_eq hstack hbelow]

private theorem calls_step_polling (he : m.executors[me]? = some e) (hwait : wait.isQueueing)
    (habove : Above (.polled wait) base e.stack) :
    (m.step me).Calls wait base me (m.ownDealing me base.length r me) := by
  obtain ⟨above, below, hstack, hbelow, -⟩ := id habove
  have hframes : e.stack = (above ++ [.polled wait]) ++ below := by simp [hstack]
  have hown : m.ownDealing me base.length r me = {} := by
    have hnot : areBlocking (above ++ [.polled wait]) = false := by
      rcases above with _ | ⟨first, _ | ⟨second, above⟩⟩ <;> simp [areBlocking]
    rw [ownDealing_of_above he hframes hbelow, hnot]
    rfl
  rw [hown]
  by_cases hready : ∃ outcome, e.control = .give outcome ∧ above = []
  · obtain ⟨outcome, hcontrol, rfl⟩ := hready
    rw [step_give he hcontrol hstack]
    exact calls_put he (stage_receive_polled m.world outcome hwait hbelow)
  · have hbusy : ∀ outcome, e.control = .give outcome →
        e.above base.length ≠ [.polled wait] := by
      intro outcome hcontrol htop
      rw [above_eq hframes hbelow] at htop
      exact hready ⟨outcome, hcontrol, by simpa using htop⟩
    obtain ⟨e', he', habove'⟩ := above_step he rfl habove hbusy
    exact ⟨e', he', .polling habove'⟩

private theorem calls_step_trying {previous : Status} (he : m.executors[me]? = some e)
    (hr : wait.queue? = some r)
    (hcontrol : e.control = .attempt wait ∨
      (∃ ticket wakeAt, e.control = .parked wait ticket wakeAt) ∨ e.control = .interrupted wait)
    (hstack : e.stack = .blocking wait previous :: below)
    (hbelow : below.map Frame.shape = base.map Frame.shape) :
    (m.step me).Calls wait base me (m.ownDealing me base.length r me) := by
  have hframes : e.stack = [.blocking wait previous] ++ below := hstack
  rw [ownDealing_of_above he hframes hbelow, areBlocking, if_pos rfl]
  rcases hcontrol with hcontrol | ⟨ticket, wakeAt, hcontrol⟩ | hcontrol
  · have hnote : noteAttempt m.world wait e.stack = e.stack := by
      cases wait <;> first | rfl | cases hr
    simp only [step, he, hcontrol, hnote, Executor.dealing]
    rw [hstack]
    exact calls_put he (stage_afterAttempt _ hbelow (Wait.answers_attempt hr _ _))
  · simp only [step, he, hcontrol, Executor.dealing]
    rw [hstack]
    exact calls_put he (stage_afterAttempt _ hbelow (Wait.answers_resume hr _ _ _))
  · simp only [step, he, hcontrol, hstack, Executor.dealing]
    exact calls_put he (stage_startPoll _ hbelow)

theorem Calls.step_self (h : m.Calls wait base me d) (hr : wait.queue? = some r)
    (hopen : m.returned? me base.length = none) :
    (m.step me).Calls wait base me (d ++ m.ownDealing me base.length r me) := by
  obtain ⟨e, he, hstage⟩ := h
  generalize hcontrol : e.control = control at hstage
  generalize hstack : e.stack = stack at hstage
  cases hstage with
  | trying htrying hbelow =>
      rw [Dealing.nothing_append]
      exact calls_step_trying he hr (hcontrol ▸ htrying) hstack hbelow
  | polling habove =>
      rw [Dealing.nothing_append]
      exact calls_step_polling he (Wait.isQueueing_of_queue? hr) (hstack ▸ habove)
  | @answered _ outcome previous below hdealt hbelow =>
      -- The section has answered; the frame of the call passes the answer on.
      have hframes : e.stack = [.blocking wait previous] ++ below := hstack
      have hnothing : m.ownDealing me base.length r me = {} := by
        simp [ownDealing_of_above he hframes hbelow, Executor.dealing, hcontrol]
      rw [hnothing, Dealing.append_nothing, step_give he hcontrol hstack]
      cases outcome with
      | ok y => exact calls_put he (.returned hdealt hbelow)
      | error failure => exact calls_put he (.returned hdealt hbelow)
  | returned hdealt hbelow =>
      rw [returned?_of_base he (hstack ▸ hbelow) hcontrol] at hopen
      cases hopen

theorem Calls.step_of_ne {i : Nat} (h : m.Calls wait base me d) (hi : i ≠ me) :
    (m.step i).Calls wait base me (d ++ m.ownDealing me base.length r i) := by
  obtain ⟨e, he, hstage⟩ := h
  have hnothing : m.ownDealing me base.length r i = {} := by
    simp [ownDealing, he, hi]
  rw [hnothing, Dealing.append_nothing]
  exact ⟨e, executors_step_of_ne (Ne.symm hi) he, hstage⟩

theorem Calls.follow {moves : List Move} (h : m.Calls wait base me d) (hr : wait.queue? = some r)
    (hrun : m.along (isOpen me base.length) moves) :
    (m.follow moves).Calls wait base me (d ++ m.own me base.length r moves) := by
  -- The stage of the call carries what has been dealt for it in the run up to here.
  induction moves generalizing m d with
  | nil => simpa [own, log] using h
  | cons move moves ih =>
      cases move with
      | step i =>
          simp only [along, Bool.and_eq_true] at hrun
          obtain ⟨hstep, hrun⟩ := hrun
          have hnext : (m.step i).Calls wait base me
              (d ++ m.ownDealing me base.length r i) := by
            by_cases hi : i = me
            · subst hi
              exact h.step_self hr (by simpa [isOpen] using hstep)
            · exact h.step_of_ne hi
          have hown : d ++ m.own me base.length r (.step i :: moves) =
              d ++ m.ownDealing me base.length r i ++ (m.step i).own me base.length r moves :=
            Dealing.ext (List.append_assoc _ _ _).symm (List.append_assoc _ _ _).symm
          rw [hown]
          exact ih hnext hrun
      | tick millis => exact ih (m := m.tick millis) h hrun

theorem Calls.of_returned {outcome : Outcome} (h : m.Calls wait base me d)
    (hreturned : m.returned? me base.length = some outcome) : wait.dealt? outcome = some d := by
  obtain ⟨e, he, hstage⟩ := h
  generalize hcontrol : e.control = control at hstage
  generalize hstack : e.stack = stack at hstage
  have hnot : ∀ {frame : Frame} {below : List Frame}, e.stack = frame :: below →
      below.map Frame.shape ≠ base.map Frame.shape := by
    intro frame below hstack hbelow
    have hframes : e.stack = [frame] ++ below := hstack
    cases ((returned?_eq_some he hframes hbelow).mp hreturned).2
  cases hstage with
  | trying htrying hbelow => exact absurd hbelow (hnot hstack)
  | polling habove =>
      rw [returned?_of_above he (hstack ▸ habove)] at hreturned
      cases hreturned
  | answered hdealt hbelow => exact absurd hbelow (hnot hstack)
  | returned hdealt hbelow =>
      rw [returned?_of_base he (hstack ▸ hbelow) hcontrol] at hreturned
      cases hreturned
      exact hdealt

end Machine

end Session

end RubyRuntime
