import RubyRuntime.Proofs.Safepoint.Polls
import RubyRuntime.Proofs.Session.Postures

/-!
# Blocking calls

A blocking call enters its primitive until this gives a result. Each interruption is followed by one
poll and one resumption, and then the primitive is entered again, unless an action has failed in the
poll: then the call returns the failure. The thread is shown as asleep exactly while the call, or
another one that an action makes for the same thread, is inside its primitive.
-/
namespace RubyRuntime.Session

inductive CallEvent where
  | called
  | answered (y : Yield)
  | interrupted
  | acted (outcome : Outcome)
  | polled (outcome : Outcome)
  | resumed

/-- How far a blocking call has come since its primitive was to be entered for the last time. -/
inductive CallStage where
  | entering
  | inside
  | polling (outcomes : List Outcome)
  | answered (y : Yield)
  | failed (outcomes : List Outcome) (failure : Failure)
  | broken (text : String)

def resumption (resumable : Bool) : Outcome → List CallEvent
  | .ok _ | .error (.error _) => if resumable then [.resumed] else []
  | _ => []

def retry (resumable : Bool) (outcomes : List Outcome) : List CallEvent :=
  [.called, .interrupted] ++ outcomes.map .acted ++
    .polled (.ok .unit) :: resumption resumable (.ok .unit)

namespace CallStage

/-- What has been heard since the primitive was to be entered for the last time. -/
def events (resumable : Bool) : CallStage → List CallEvent
  | entering => []
  | inside | broken _ => [.called]
  | polling outcomes => [.called, .interrupted] ++ outcomes.map .acted
  | answered y => [.called, .answered y]
  | failed outcomes failure => [.called, .interrupted] ++ outcomes.map .acted ++
      .polled (.error failure) :: resumption resumable (.error failure)

def outcome? : CallStage → Option Outcome
  | answered y => some (.ok y)
  | failed _ failure => some (.error failure)
  | broken text => some (.error (.panic text))
  | _ => none

/-- All actions of a poll but the last one have succeeded, and a call that fails returns the error
or the panic of the last one. -/
def IsSound : CallStage → Prop
  | polling outcomes => ∀ o ∈ outcomes.dropLast, o.isOk
  | failed outcomes failure => PollResult outcomes (.error failure) ∧ failure.isBare = false
  | _ => True

/-- The status of the thread, which was `entry` when the call was made. While the call polls, it
depends on whether an action is inside the primitive of a blocking call for the same thread. -/
def status (entry : Status) (naps : Bool) : CallStage → Status
  | entering | inside => .sleep
  | polling _ => if naps then .sleep else entry
  | _ => entry

end CallStage

namespace Machine

def resumes (me height : Nat) (m : Machine) : Nat :=
  match m.executors[me]? with
  | some e => (innermost (e.stack.drop (e.stack.length - height))).resumes
  | none => 0

/-- What the next step of executor `i` lets be heard of the blocking call that executor `me` has
made with `height` frames on its stack. -/
def heard (me height : Nat) (m : Machine) (i : Nat) : List CallEvent :=
  if i = me then
    match m.executors[me]? with
    | some e =>
      match e.control, e.above height with
      | .attempt _, [.blocking _ _] => [.called]
      | .interrupted _, [.blocking _ _] => [.interrupted]
      | .give (.ok y), [.blocking _ _] => [.answered y]
      | .give outcome, [.polling _, .polled _] => [.acted outcome]
      | .give outcome, [.polled _] => .polled outcome ::
        List.replicate ((m.step me).resumes me height - m.resumes me height) .resumed
      | _, _ => []
    | none => []
  else []

def InCall (wait : Wait) (base : List Frame) (me : Nat) (stage : CallStage) (m : Machine) : Prop :=
  match stage with
  | .entering => ∃ e next wait' previous below, m.executors[me]? = some e ∧
      e.stack = .blocking wait' previous :: below ∧ wait.Kin wait' ∧
      below.map Frame.shape = base.map Frame.shape ∧ e.control = .attempt next ∧ wait.Kin next
  | .inside => ∃ e wait' previous below, m.executors[me]? = some e ∧
      e.stack = .blocking wait' previous :: below ∧ wait.Kin wait' ∧
      below.map Frame.shape = base.map Frame.shape ∧
      ((∃ next, wait.Kin next ∧ (e.control = .interrupted next ∨
          ∃ ticket wakeAt, e.control = .parked next ticket wakeAt)) ∨
        (∃ y, e.control = .give (.ok y)) ∨ ∃ text, e.control = .give (.error (.panic text)))
  | .polling outcomes => ∃ next, wait.Kin next ∧
      m.Polls wait.thread (.polled next :: base) me outcomes
  | stage => ∃ e outcome, m.executors[me]? = some e ∧ stage.outcome? = some outcome ∧
      e.control = .give outcome ∧ e.stack.map Frame.shape = base.map Frame.shape

variable {m : Machine} {me : Nat} {e : Executor} {wait : Wait} {base below : List Frame}

theorem Polls.of_shape {t : ThreadId} {outcomes : List Outcome} {base' : List Frame}
    (h : m.Polls t base me outcomes) (hshape : base.map Frame.shape = base'.map Frame.shape) :
    m.Polls t base' me outcomes := by
  obtain ⟨e, he, ⟨hok, above, below, hstack, hbelow, hinner⟩ | ⟨hstack, hgive⟩⟩ := h
  · exact ⟨e, he, .inl ⟨hok, above, below, hstack, hbelow.trans hshape, hinner⟩⟩
  · exact ⟨e, he, .inr ⟨hstack.trans hshape, hgive⟩⟩

private theorem heard_self (he : m.executors[me]? = some e) (height : Nat) :
    m.heard me height me =
      match e.control, e.above height with
      | .attempt _, [.blocking _ _] => [.called]
      | .interrupted _, [.blocking _ _] => [.interrupted]
      | .give (.ok y), [.blocking _ _] => [.answered y]
      | .give outcome, [.polling _, .polled _] => [.acted outcome]
      | .give outcome, [.polled _] => .polled outcome ::
        List.replicate ((m.step me).resumes me height - m.resumes me height) .resumed
      | _, _ => [] := by
  rw [heard, if_pos rfl, he]

private theorem inCall_afterAttempt {next wait' : Wait} {previous : Status} {stack : List Frame}
    {progress : Progress} (he : m.executors[me]? = some e) (w : World) (hkin : wait.Kin next)
    (hkin' : wait.Kin wait') (hleads : next.Leads progress)
    (hstack : stack.map Frame.shape = (.blocking wait' previous :: below).map Frame.shape)
    (hbelow : below.map Frame.shape = base.map Frame.shape) :
    (m.put me e.current (afterAttempt stack w progress)).InCall wait base me .inside := by
  obtain ⟨below', rfl, hbelow'⟩ : ∃ below', stack = [.blocking wait' previous] ++ below' ∧
      below'.map Frame.shape = below.map Frame.shape :=
    exists_below_of_shape hstack (by simp)
  have hshape := hbelow'.trans hbelow
  cases progress with
  | done y => exact ⟨_, _, _, _, executors_put he _ _, rfl, hkin', hshape, .inr (.inl ⟨y, rfl⟩)⟩
  | interrupted last =>
      exact ⟨_, _, _, _, executors_put he _ _, rfl, hkin', hshape,
        .inl ⟨last, hkin.trans hleads, .inl rfl⟩⟩
  | parked last ticket wakeAt =>
      exact ⟨_, _, _, _, executors_put he _ _, rfl, hkin', hshape,
        .inl ⟨last, hkin.trans hleads, .inr ⟨ticket, wakeAt, rfl⟩⟩⟩
  | panics text =>
      exact ⟨_, _, _, _, executors_put he _ _, rfl, hkin', hshape, .inr (.inr ⟨text, rfl⟩)⟩

private theorem step_entering (h : m.InCall wait base me .entering) :
    m.heard me base.length me = [.called] ∧ (m.step me).InCall wait base me .inside := by
  obtain ⟨e, next, wait', previous, below, he, hstack, hkin', hbelow, hcontrol, hkin⟩ := h
  have hframes : e.stack = [.blocking wait' previous] ++ below := hstack
  refine ⟨by rw [heard_self he, hcontrol, above_eq hframes hbelow], ?_⟩
  have hshape := shape_noteAttempt m.world next e.stack
  rw [hstack] at hshape
  simp only [step, he, hcontrol, hstack]
  exact inCall_afterAttempt he _ hkin hkin' (next.leads_attempt _ _) hshape hbelow

private theorem step_inside (h : m.InCall wait base me .inside) :
    ∃ stage : CallStage, stage.IsSound ∧
      stage.events wait.isResumable = [.called] ++ m.heard me base.length me ∧
      (m.step me).InCall wait base me stage := by
  obtain ⟨e, wait', previous, below, he, hstack, hkin', hbelow, hcontrol⟩ := h
  have hframes : e.stack = [.blocking wait' previous] ++ below := hstack
  rw [heard_self he, above_eq hframes hbelow]
  rcases hcontrol with ⟨next, hkin, hcontrol | ⟨ticket, wakeAt, hcontrol⟩⟩ | ⟨y, hcontrol⟩ |
    ⟨text, hcontrol⟩
  · refine ⟨.polling [], by simp [CallStage.IsSound], by simp [hcontrol, CallStage.events], next,
      hkin, ?_⟩
    have hpolls : e.polls? m.world = some (wait.thread, .polled next :: below) := by
      simp [Executor.polls?, hcontrol, hstack, hkin.thread]
    exact (polls_begun he hpolls).of_shape (by simp [hbelow])
  · refine ⟨.inside, trivial, by simp [hcontrol, CallStage.events], ?_⟩
    simp only [step, he, hcontrol, hstack]
    exact inCall_afterAttempt he _ hkin hkin' (next.leads_resume _ _ ticket) rfl hbelow
  · refine ⟨.answered y, trivial, by simp [hcontrol, CallStage.events], ?_⟩
    rw [step_give he hcontrol hstack]
    exact ⟨_, _, executors_put he _ _, rfl, rfl, hbelow⟩
  · refine ⟨.broken text, trivial, by simp [hcontrol, CallStage.events], ?_⟩
    rw [step_give he hcontrol hstack]
    exact ⟨_, _, executors_put he _ _, rfl, rfl, hbelow⟩

private theorem resumes_resumed (next : Wait) {frames : List Frame} {m' : Machine}
    {e' : Executor} (he : m.executors[me]? = some e) (hstack : e.stack = .polled next :: below)
    (hstands : (Frame.polled next).StandsOn below) (he' : m'.executors[me]? = some e')
    (hstack' : e'.stack = frames ++ resumed next below) :
    m'.resumes me below.length = m.resumes me below.length + next.isResumable.toNat := by
  have hlength : (resumed next below).length = below.length := by
    simpa using congrArg List.length (shape_resumed next below)
  have hbefore : m.resumes me below.length = (innermost below).resumes := by
    simp [resumes, he, hstack]
  have hafter : m'.resumes me below.length = (innermost (resumed next below)).resumes := by
    rw [← hlength]
    simp [resumes, he', hstack']
  rw [hbefore, hafter]
  cases hresumable : next.isResumable with
  | false =>
      have hsame : resumed next below = below := by
        cases next with
        | scripted t cues plain =>
            cases plain with
            | true => rfl
            | false => cases hresumable
        | _ => rfl
      rw [hsame]
      rfl
  | true =>
      obtain ⟨how, running, rest, rfl⟩ := hstands hresumable
      cases next with
      | scripted t cues plain =>
          cases plain with
          | true => cases hresumable
          | false => rfl
      | _ => cases hresumable

private theorem step_polled {next : Wait} {outcomes : List Outcome} {outcome : Outcome}
    (he : m.executors[me]? = some e) (hposed : e.Poised) (hkin : wait.Kin next)
    (hcontrol : e.control = .give outcome) (hstack : e.stack = .polled next :: below)
    (hbelow : below.map Frame.shape = base.map Frame.shape)
    (hresult : PollResult outcomes outcome) :
    m.heard me base.length me = .polled outcome :: resumption wait.isResumable outcome ∧
      ((∀ o ∈ outcomes, o.isOk) ∧ outcome = .ok .unit ∧
          (m.step me).InCall wait base me .entering ∨
        ∃ failure, outcome = .error failure ∧ failure.isBare = false ∧
          (m.step me).InCall wait base me (.failed outcomes failure)) := by
  have hstanding := hposed.standing
  have hcontrol' := hposed.control
  rw [hcontrol, hstack] at hcontrol'
  rw [hstack] at hstanding
  have hframes : e.stack = [.polled next] ++ below := hstack
  have hlength : base.length = below.length := by simpa using congrArg List.length hbelow.symm
  have hshape : (resumed next below).map Frame.shape = base.map Frame.shape :=
    (shape_resumed next below).trans hbelow
  have hheard : m.heard me base.length me = .polled outcome :: List.replicate
      ((m.step me).resumes me base.length - m.resumes me base.length) .resumed := by
    rw [heard_self he, hcontrol, above_eq hframes hbelow]
    cases outcome <;> rfl
  -- What the caller hears if the stack below the call is resumed.
  have hresumption : ∀ (frames : List Frame) {e' : Executor},
      (m.step me).executors[me]? = some e' → e'.stack = frames ++ resumed next below →
      m.heard me base.length me =
        .polled outcome :: if wait.isResumable then [.resumed] else [] := by
    intro frames e' he' hstack'
    have hresumes := resumes_resumed next he hstack hstanding.1 he' hstack'
    rw [hheard, hlength, hresumes, ← hkin.resumable, Nat.add_sub_cancel_left]
    cases next.isResumable <;> rfl
  have hstep := step_give he hcontrol hstack
  rcases outcome with (err | _ | _ | text) | y
  · have he' := executors_put he e.current
      (m.world.giveError (resumed next below) err)
    have hstep' : m.step me = m.put me e.current (m.world.giveError (resumed next below) err) :=
      hstep
    rw [← hstep'] at he'
    exact ⟨hresumption [] he' rfl, .inr ⟨_, rfl, rfl, _, _, he', rfl, rfl, hshape⟩⟩
  · obtain ⟨running, rest, htop | htop⟩ := hcontrol' rfl <;> cases htop
  · obtain ⟨running, rest, htop | htop⟩ := hcontrol' rfl <;> cases htop
  · have he' := executors_put he e.current (m.world.giveFailure below (.panic text))
    have hstep' : m.step me = m.put me e.current (m.world.giveFailure below (.panic text)) :=
      hstep
    rw [← hstep'] at he'
    refine ⟨?_, .inr ⟨_, rfl, rfl, _, _, he', rfl, rfl, hbelow⟩⟩
    have hsame : (m.step me).resumes me below.length = m.resumes me below.length := by
      simp [resumes, he, he', hstack, World.giveFailure]
    rw [hheard, hlength, hsame, Nat.sub_self]
    rfl
  · have he' := executors_put he e.current (m.world.startBlocking (resumed next below) next)
    have hstep' : m.step me =
        m.put me e.current (m.world.startBlocking (resumed next below) next) := hstep
    rw [← hstep'] at he'
    cases hresult with
    | done hok =>
        exact ⟨hresumption [_] he' rfl,
          .inl ⟨hok, rfl, _, next, next, _, _, he', rfl, hkin, hshape, rfl, hkin⟩⟩

private theorem heard_of_polling {next : Wait} {t : ThreadId} (he : m.executors[me]? = some e)
    (habove : Above (.polling t) (.polled next :: base) e.stack) :
    m.heard me base.length me = (m.handed? me (base.length + 1)).toList.map .acted := by
  obtain ⟨above, rest, hstack, hrest, -⟩ := habove
  obtain ⟨below, rfl, hbelow⟩ : ∃ below, rest = [.polled next] ++ below ∧
      below.map Frame.shape = base.map Frame.shape :=
    exists_below_of_shape hrest (by simp)
  have hwhole : e.stack = (above ++ [.polling t, .polled next]) ++ below := by simp [hstack]
  have hpoll : e.stack = (above ++ [.polling t]) ++ (.polled next :: below) := by simp [hstack]
  have hheight : (.polled next :: below).map Frame.shape =
      (.polled next :: base).map Frame.shape := by simp [hbelow]
  have habove' : e.above (base.length + 1) = above ++ [.polling t] := above_eq hpoll hheight
  rw [heard_self he, above_eq hwhole hbelow, handed?, he, Option.bind_some, habove']
  cases above with
  | nil =>
      cases hcontrol : e.control with
      | give outcome => cases outcome <;> rfl
      | _ => rfl
  | cons first above =>
      -- The action is still running, so that nobody is told anything.
      have hthree : 3 ≤ (first :: above ++ [Frame.polling t, Frame.polled next]).length := by simp
      have htwo : 2 ≤ (first :: above ++ [Frame.polling t]).length := by simp
      generalize first :: above ++ [Frame.polling t, Frame.polled next] = frames at hthree
      generalize first :: above ++ [Frame.polling t] = frames' at htwo
      split
      case h_6 =>
        split
        · simp at htwo
        · rfl
      all_goals simp at hthree

private theorem step_polling {outcomes : List Outcome} (hposed : m.Poised)
    (h : m.InCall wait base me (.polling outcomes)) :
    (∃ stage : CallStage, stage.IsSound ∧
        stage.events wait.isResumable =
          (CallStage.polling outcomes).events wait.isResumable ++ m.heard me base.length me ∧
        (m.step me).InCall wait base me stage) ∨
      (∀ o ∈ outcomes, o.isOk) ∧
        (CallStage.polling outcomes).events wait.isResumable ++ m.heard me base.length me =
          retry wait.isResumable outcomes ∧
        (m.step me).InCall wait base me .entering := by
  obtain ⟨next, hkin, hpolls⟩ := h
  obtain ⟨e, he, ⟨hok, habove⟩ | ⟨hshape, outcome, hcontrol, hresult⟩⟩ := id hpolls
  · have hnext := hpolls.step_self (returned?_of_above he habove)
    left
    refine ⟨.polling _, hnext.returned.1, ?_, next, hkin, hnext⟩
    rw [heard_of_polling he habove]
    simp [CallStage.events]
  · obtain ⟨below, hstack, hbelow⟩ : ∃ below, e.stack = [.polled next] ++ below ∧
        below.map Frame.shape = base.map Frame.shape :=
      exists_below_of_shape hshape (by simp)
    obtain ⟨hheard, ⟨hok, rfl, hentering⟩ | ⟨failure, rfl, hbare, hfailed⟩⟩ :=
      step_polled he (hposed me e he) hkin hcontrol hstack hbelow hresult
    · right
      refine ⟨hok, ?_, hentering⟩
      rw [hheard]
      rfl
    · left
      refine ⟨.failed outcomes failure, ⟨hresult, hbare⟩, ?_, hfailed⟩
      rw [hheard]
      rfl

theorem InCall.returned {stage : CallStage} (h : m.InCall wait base me stage) :
    m.returned? me base.length = stage.outcome? := by
  have hsome : ∀ {e : Executor} {outcome : Outcome}, m.executors[me]? = some e →
      e.control = .give outcome → e.stack.map Frame.shape = base.map Frame.shape →
      m.returned? me base.length = some outcome :=
    fun he hcontrol hshape => returned?_of_base he hshape hcontrol
  cases stage with
  | entering =>
      obtain ⟨e, next, wait', previous, below, he, hstack, -, hbelow, -⟩ := h
      exact returned?_of_frame [] he hstack hbelow
  | inside =>
      obtain ⟨e, wait', previous, below, he, hstack, -, hbelow, -⟩ := h
      exact returned?_of_frame [] he hstack hbelow
  | polling outcomes =>
      obtain ⟨next, -, e, he, ⟨-, above, rest, hstack, hrest, -⟩ | ⟨hshape, -⟩⟩ := h
      · obtain ⟨below, rfl, hbelow⟩ : ∃ below, rest = [.polled next] ++ below ∧
            below.map Frame.shape = base.map Frame.shape :=
          exists_below_of_shape hrest (by simp)
        have hwhole : e.stack = (above ++ [.polling wait.thread]) ++ .polled next :: below := by
          simp [hstack]
        exact returned?_of_frame _ he hwhole hbelow
      · obtain ⟨below, hstack, hbelow⟩ : ∃ below, e.stack = [.polled next] ++ below ∧
            below.map Frame.shape = base.map Frame.shape :=
          exists_below_of_shape hshape (by simp)
        exact returned?_of_frame [] he hstack hbelow
  | answered y =>
      obtain ⟨e, outcome, he, houtcome, hcontrol, hshape⟩ := h
      exact (hsome he hcontrol hshape).trans houtcome.symm
  | failed outcomes failure =>
      obtain ⟨e, outcome, he, houtcome, hcontrol, hshape⟩ := h
      exact (hsome he hcontrol hshape).trans houtcome.symm
  | broken text =>
      obtain ⟨e, outcome, he, houtcome, hcontrol, hshape⟩ := h
      exact (hsome he hcontrol hshape).trans houtcome.symm

/-- What has been heard of a call so far: interruptions after which the primitive was entered again,
and what belongs to the stage that the call is in. -/
def Hears (wait : Wait) (base : List Frame) (me : Nat) (events : List CallEvent)
    (stage : CallStage) (m : Machine) : Prop :=
  stage.IsSound ∧ m.InCall wait base me stage ∧
    ∃ rounds : List (List Outcome), (∀ outcomes ∈ rounds, ∀ o ∈ outcomes, o.isOk) ∧
      events = rounds.flatMap (retry wait.isResumable) ++ stage.events wait.isResumable

theorem Hears.step_self {events : List CallEvent} {stage : CallStage}
    (h : m.Hears wait base me events stage) (hposed : m.Poised)
    (hopen : m.returned? me base.length = none) :
    ∃ stage', (m.step me).Hears wait base me (events ++ m.heard me base.length me) stage' := by
  obtain ⟨hsound, hcall, rounds, hrounds, rfl⟩ := h
  rw [hcall.returned] at hopen
  cases stage with
  | entering =>
      obtain ⟨hheard, hinside⟩ := step_entering hcall
      refine ⟨.inside, trivial, hinside, rounds, hrounds, ?_⟩
      rw [hheard, List.append_assoc]
      rfl
  | inside =>
      obtain ⟨stage', hsound', hevents, hcall'⟩ := step_inside hcall
      refine ⟨stage', hsound', hcall', rounds, hrounds, ?_⟩
      rw [hevents, List.append_assoc]
      rfl
  | polling outcomes =>
      rcases step_polling hposed hcall with ⟨stage', hsound', hevents, hcall'⟩ |
        ⟨hok, hevents, hcall'⟩
      · refine ⟨stage', hsound', hcall', rounds, hrounds, ?_⟩
        rw [hevents, List.append_assoc]
      · refine ⟨.entering, trivial, hcall', rounds ++ [outcomes], ?_, ?_⟩
        · intro round hround
          rcases List.mem_append.mp hround with hround | hround
          · exact hrounds round hround
          · rw [List.mem_singleton.mp hround]
            exact hok
        · rw [List.append_assoc, hevents, List.flatMap_append]
          simp [CallStage.events]
  | answered y => cases hopen
  | failed outcomes failure => cases hopen
  | broken text => cases hopen

theorem InCall.of_executors {m' : Machine} {stage : CallStage} (h : m.InCall wait base me stage)
    (hexecutor : ∀ e, m.executors[me]? = some e → m'.executors[me]? = some e) :
    m'.InCall wait base me stage := by
  cases stage with
  | entering =>
      obtain ⟨e, next, wait', previous, below, he, hrest⟩ := h
      exact ⟨e, next, wait', previous, below, hexecutor e he, hrest⟩
  | inside =>
      obtain ⟨e, wait', previous, below, he, hrest⟩ := h
      exact ⟨e, wait', previous, below, hexecutor e he, hrest⟩
  | polling outcomes =>
      obtain ⟨next, hkin, e, he, hrest⟩ := h
      exact ⟨next, hkin, e, hexecutor e he, hrest⟩
  | _ =>
      obtain ⟨e, outcome, he, hrest⟩ := h
      exact ⟨e, outcome, hexecutor e he, hrest⟩

theorem Hears.follow {events : List CallEvent} {stage : CallStage} {moves : List Move}
    (h : m.Hears wait base me events stage) (hposed : m.Poised)
    (hrun : m.along (isOpen me base.length) moves) :
    ∃ stage', (m.follow moves).Hears wait base me
      (events ++ m.log (heard me base.length) moves) stage' := by
  induction moves generalizing m events stage with
  | nil => exact ⟨stage, by simpa [log] using h⟩
  | cons move moves ih =>
      cases move with
      | tick millis =>
          obtain ⟨hsound, hcall, hevents⟩ := h
          have hlater : (m.tick millis).InCall wait base me stage :=
            hcall.of_executors fun _ he => he
          exact ih ⟨hsound, hlater, hevents⟩ hposed hrun
      | step i =>
          simp only [along, Bool.and_eq_true] at hrun
          obtain ⟨hopen, hrun⟩ := hrun
          simp only [follow_step, log, ← List.append_assoc]
          by_cases hi : i = me
          · subst hi
            obtain ⟨stage', hnext⟩ := h.step_self hposed (by simpa [isOpen] using hopen)
            exact ih hnext (hposed.step i) hrun
          · have hnone : m.heard me base.length i = [] := by simp [heard, hi]
            obtain ⟨hsound, hcall, hevents⟩ := h
            have hlater : (m.step i).InCall wait base me stage :=
              hcall.of_executors fun _ he => executors_step_of_ne (Ne.symm hi) he
            rw [hnone, List.append_nil]
            exact ih ⟨hsound, hlater, hevents⟩ (hposed.step i) hrun

end Machine

def remembered? (t : ThreadId) : List Frame → Option Status
  | .blocking wait previous :: _ => if wait.thread = t then some previous else none
  | _ => none

theorem remembered?_of_free {stack : List Frame} (t : ThreadId) (h : isBlocking stack = false) :
    remembered? t stack = none := by
  cases stack with
  | nil => rfl
  | cons frame stack => cases frame <;> first | rfl | cases h

theorem remembered?_shape {stack stack' : List Frame} (t : ThreadId)
    (h : stack'.map Frame.shape = stack.map Frame.shape) :
    remembered? t stack' = remembered? t stack := by
  have hshape : ∀ stack : List Frame,
      remembered? t (stack.map Frame.shape) = remembered? t stack := by
    intro stack
    cases stack with
    | nil => rfl
    | cons frame stack => cases frame <;> rfl
  rw [← hshape, h, hshape]

theorem World.status_updateThread (w : World) (t u : ThreadId) (status : Status) :
    ((w.updateThread u fun thread => { thread with status := status }).thread t).status =
      if u = t then status else (w.thread t).status := by
  rw [World.thread, World.updateThread, World.updateSync, Sync.thread_updateThread]
  split <;> rfl

/-- Thread `t`, which is shown as `entry` otherwise, is shown as asleep while a blocking call for it
is inside its primitive, which has not panicked. -/
def Task.AtRest (t : ThreadId) (entry : Status) (task : Task) : Prop :=
  match remembered? t task.stack with
  | some previous => previous = entry ∧ (task.world.thread t).status = .sleep ∧
      ∀ failure, task.control ≠ .give (.error failure)
  | none => (task.world.thread t).status = entry

def Task.isBroken (t : ThreadId) (task : Task) : Bool :=
  match task.control with
  | .give (.error _) => (remembered? t task.stack).isSome
  | _ => false

namespace Task

variable {t : ThreadId} {entry : Status} {task : Task} {w : World}

theorem atRest_of_free (hfree : isBlocking task.stack = false) :
    task.AtRest t entry ↔ (task.world.thread t).status = entry := by
  rw [AtRest, remembered?_of_free t hfree]

theorem atRest_of_blocking {wait : Wait} {previous : Status} {base : List Frame}
    (hstack : task.stack = .blocking wait previous :: base) :
    task.AtRest t entry ↔
      if wait.thread = t then previous = entry ∧ (task.world.thread t).status = .sleep ∧
        ∀ failure, task.control ≠ .give (.error failure)
      else (task.world.thread t).status = entry := by
  rw [AtRest, hstack, remembered?]
  by_cases hthread : wait.thread = t
  · rw [if_pos hthread, if_pos hthread]
  · rw [if_neg hthread, if_neg hthread]

theorem AtRest.of_shape {task' : Task} (h : task.AtRest t entry)
    (hstatus : (task'.world.thread t).status = (task.world.thread t).status)
    (hshape : task'.stack.map Frame.shape = task.stack.map Frame.shape)
    (hbroken : task'.isBroken t = false) : task'.AtRest t entry := by
  have hsame := remembered?_shape t hshape
  unfold AtRest at h ⊢
  cases hremembered : remembered? t task.stack with
  | none =>
      rw [hremembered] at h hsame
      rw [hsame]
      exact hstatus.trans h
  | some previous =>
      rw [hremembered] at h hsame
      rw [hsame]
      refine ⟨h.1, hstatus.trans h.2.1, fun failure hgive => ?_⟩
      rw [isBroken, hgive, hsame] at hbroken
      cases hbroken

theorem Settles.atRest {but : Option ThreadId} (h : task.Settles but w) (hbut : but ≠ some t)
    (hentry : (w.thread t).status = entry) : task.AtRest t entry := by
  cases h with
  | @blocks w' base wait hsame hbase hwait =>
      have hsame' : (w'.thread t).status = entry := (hsame t hbut).trans hentry
      rw [atRest_of_blocking rfl]
      split
      · next ht =>
        subst ht
        exact ⟨hsame', (w'.status_updateThread _ _ _).trans (if_pos rfl), nofun⟩
      · next ht => exact ((w'.status_updateThread _ _ _).trans (if_neg ht)).trans hsame'
  | goes hsame hcontrol hstack =>
      rw [atRest_of_free hstack.free]
      exact (hsame t hbut).trans hentry

end Task

theorem Executor.Rests.atRest {w : World} {e : Executor} {task : Task} {t : ThreadId}
    {entry : Status} (h : e.Rests w task) (hposed : e.Poised)
    (hrest : Task.AtRest t entry ⟨w, e.control, e.stack⟩) (hended : e.ended? ≠ some t)
    (hbroken : task.isBroken t = false) : task.AtRest t entry := by
  -- Who leaves the primitive gives the thread back the status that the call remembers.
  have hwakes : ∀ {wait : Wait} {previous : Status} {base : List Frame} {u : ThreadId},
      e.stack = .blocking wait previous :: base → u = wait.thread →
      ((w.updateThread u fun thread => { thread with status := previous }).thread t).status =
        entry := by
    rintro wait previous base u hstack rfl
    rw [Task.atRest_of_blocking hstack] at hrest
    rw [World.status_updateThread]
    split at hrest
    · next ht => rw [if_pos ht, hrest.1]
    · next ht => rw [if_neg ht, hrest]
  cases h with
  | settles hfree h => exact h.atRest hended ((Task.atRest_of_free hfree).mp hrest)
  | @enters wait w' stack progress hcontrol hsame hleads hshape =>
      refine hrest.of_shape ?_ ?_ hbroken
      · rw [world_afterAttempt]
        exact hsame t nofun
      · cases progress <;> exact hshape
  | @polls wait wait' previous base hcontrol hstack =>
      have hthread : wait.thread = wait'.thread := by
        have hcontrol' := hposed.control
        rw [hcontrol, hstack] at hcontrol'
        rcases hcontrol' with ⟨_, _, _, htop, hkin⟩ | ⟨_, _, htop⟩ <;> cases htop
        exact hkin.thread
      have hsettles : ∀ w : World,
          (w.startPoll (.polled wait :: base) wait.thread).Settles none w :=
        fun w => w.settles_startPoll wait.thread (hposed.ready_polled hcontrol hstack)
      exact (hsettles _).atRest nofun (hwakes hstack hthread)
  | returns hcontrol hstack =>
      exact (Task.atRest_of_free (hposed.below hstack).free).mpr (hwakes hstack rfl)
  | @fails failure wait previous base hcontrol hstack =>
      rw [Task.atRest_of_blocking hstack] at hrest
      split at hrest
      · exact absurd hcontrol (hrest.2.2 failure)
      · exact (Task.atRest_of_free (hposed.below hstack).free).mpr hrest

namespace Machine

def ended? (m : Machine) (i : Nat) : Option ThreadId :=
  m.executors[i]?.bind fun e =>
    match e.control with
    | .perform (.call (.spawn _ _ _)) => some m.world.sync.threads.length
    | _ => e.ended?

def naps (t : ThreadId) (me : Nat) (m : Machine) : Bool :=
  m.executors[me]?.any fun e => (remembered? t e.stack).isSome

def isBroken (t : ThreadId) (me : Nat) (m : Machine) : Bool :=
  m.executors[me]?.any fun e => Task.isBroken t ⟨m.world, e.control, e.stack⟩

/-- Whether the next step of executor `i` leaves thread `t` in the care of executor `me`: the thread
is not brought to its end, nobody else puts it to sleep or wakes it up, and its primitives do not
panic. -/
def minds (t : ThreadId) (me : Nat) (m : Machine) (i : Nat) : Bool :=
  m.ended? i != some t &&
    if i = me then !(m.step me).isBroken t me else m.sleeper? i != some t

def AtRest (t : ThreadId) (entry : Status) (me : Nat) (m : Machine) : Prop :=
  ∃ e, m.executors[me]? = some e ∧ (⟨m.world, e.control, e.stack⟩ : Task).AtRest t entry

variable {m : Machine} {me : Nat} {e : Executor} {t : ThreadId} {entry : Status}

theorem AtRest.step_self (h : m.AtRest t entry me) (hposed : m.Poised)
    (hended : m.ended? me ≠ some t) (hbroken : (m.step me).isBroken t me = false) :
    (m.step me).AtRest t entry me := by
  obtain ⟨e, he, hrest⟩ := h
  rw [ended?, he, Option.bind_some] at hended
  rcases rests_step he (hposed me e he) with hsame | ⟨current, task, hstep, hrests⟩ |
    ⟨name, threadName, body, hcontrol, hstep⟩
  · rw [hsame]
    exact ⟨e, he, hrest⟩
  · have hended' : e.ended? ≠ some t := by
      split at hended
      · next hcontrol =>
        rw [Executor.ended?, hcontrol]
        intro hnone
        cases hnone
      · exact hended
    have he' := executors_put he current task
    rw [hstep] at hbroken ⊢
    rw [isBroken, he', Option.any_some] at hbroken
    exact ⟨_, he', hrests.atRest (hposed me e he) hrest hended' hbroken⟩
  · rw [hcontrol] at hended
    have hfree : isBlocking e.stack = false := by
      have hcontrol' := (hposed me e he).control
      rw [hcontrol] at hcontrol'
      obtain ⟨running, base, hstack⟩ := hcontrol'
      rw [hstack]
      rfl
    obtain ⟨e', he', hstack'⟩ : ∃ e', (m.step me).executors[me]? = some e' ∧
        e'.stack = e.stack := by
      rw [hstep, spawn]
      split
      · exact ⟨_, executors_put he _ _, rfl⟩
      · refine ⟨⟨e.current, .give (.ok .unit), e.stack⟩, ?_, rfl⟩
        rw [List.getElem?_append_left]
        · exact executors_put he _ _
        · simpa [put] using (List.getElem?_eq_some_iff.mp he).1
    refine ⟨e', he', (Task.atRest_of_free (by rw [hstack']; exact hfree)).mpr ?_⟩
    rw [hstep]
    exact ((quiet_spawn e name threadName body).sameStatus t hended).trans
      ((Task.atRest_of_free hfree).mp hrest)

theorem AtRest.step_of_ne {i : Nat} (h : m.AtRest t entry me) (hi : i ≠ me)
    (hended : m.ended? i ≠ some t) (hsleeper : m.sleeper? i ≠ some t) :
    (m.step i).AtRest t entry me := by
  obtain ⟨e, he, hrest⟩ := h
  have hstatus : ((m.step i).world.thread t).status = (m.world.thread t).status := by
    cases hx : m.executors[i]? with
    | none => simp [step, hx]
    | some x =>
        rw [ended?, hx, Option.bind_some] at hended
        rw [sleeper?, hx, Option.bind_some] at hsleeper
        by_cases hspawn : ∃ name threadName body,
            x.control = .perform (.call (.spawn name threadName body))
        · obtain ⟨name, threadName, body, hcontrol⟩ := hspawn
          rw [hcontrol] at hended
          simp only [step, hx, hcontrol]
          exact (quiet_spawn x name threadName body).sameStatus t hended
        · refine sameStatus_step hx (fun name threadName body hcontrol => ?_) t hsleeper
          exact hspawn ⟨name, threadName, body, hcontrol⟩
  refine ⟨e, executors_step_of_ne (Ne.symm hi) he, ?_⟩
  rw [Task.AtRest] at hrest ⊢
  rw [hstatus]
  exact hrest

theorem AtRest.follow {moves : List Move} (h : m.AtRest t entry me) (hposed : m.Poised)
    (hminds : m.along (minds t me) moves) : (m.follow moves).AtRest t entry me := by
  have hboth := follow_keeps (P := fun m => m.Poised ∧ m.AtRest t entry me) ?_ ?_ hminds ⟨hposed, h⟩
  · exact hboth.2
  · rintro m i hmind ⟨hposed, hrest⟩
    refine ⟨hposed.step i, ?_⟩
    simp only [minds, Bool.and_eq_true, bne_iff_ne] at hmind
    obtain ⟨hended, hmind⟩ := hmind
    split at hmind
    · next hi =>
      subst hi
      exact hrest.step_self hposed hended (by simpa using hmind)
    · next hi => exact hrest.step_of_ne hi hended (by simpa using hmind)
  · exact fun m millis h => h

/-- The status of the thread is known from the stage of the call. -/
theorem InCall.status {wait : Wait} {base : List Frame} {stage : CallStage}
    (h : m.InCall wait base me stage) (hbase : isBlocking base = false)
    (hrest : m.AtRest wait.thread entry me) :
    (m.world.thread wait.thread).status = stage.status entry (m.naps wait.thread me) := by
  obtain ⟨e, he, hrest⟩ := hrest
  have hasleep : ∀ {wait' : Wait} {previous : Status} {below : List Frame},
      e.stack = .blocking wait' previous :: below → wait.Kin wait' →
      (m.world.thread wait.thread).status = .sleep := by
    intro wait' previous below hstack hkin
    rw [Task.atRest_of_blocking hstack, if_pos hkin.thread] at hrest
    exact hrest.2.1
  have hawake : ∀ {e' : Executor}, m.executors[me]? = some e' →
      e'.stack.map Frame.shape = base.map Frame.shape →
      (m.world.thread wait.thread).status = entry := by
    intro e' he' hshape
    cases he.symm.trans he'
    exact (Task.atRest_of_free ((isBlocking_shape hshape).trans hbase)).mp hrest
  cases stage with
  | entering =>
      obtain ⟨e', next, wait', previous, below, he', hstack, hkin, -⟩ := h
      cases he.symm.trans he'
      exact hasleep hstack hkin
  | inside =>
      obtain ⟨e', wait', previous, below, he', hstack, hkin, -⟩ := h
      cases he.symm.trans he'
      exact hasleep hstack hkin
  | polling outcomes =>
      rw [CallStage.status, naps, he, Option.any_some]
      rw [Task.AtRest] at hrest
      cases hremembered : remembered? wait.thread e.stack with
      | none =>
          rw [hremembered] at hrest
          exact hrest
      | some previous =>
          rw [hremembered] at hrest
          exact hrest.2.1
  | _ =>
      obtain ⟨e', outcome, he', -, -, hshape⟩ := h
      exact hawake he' hshape

end Machine

/-- A blocking call enters its primitive anew after every interruption that its poll has got over.
Every interruption is followed by one poll, which runs actions until one of them fails, and one
resumption. The call returns the result of the primitive when this was entered last, or the failure
of the last poll, and no bare interruption. The thread is shown as asleep while the call is inside
its primitive, and as it was before while the call polls, unless an action is inside the primitive
of another call for the thread, and when the call has returned. -/
theorem blocking_calls_poll_and_resume (script : Script) (moves later : List Move) (me : Nat)
    (e : Executor) (current : Option ThreadId) (w : World) (base : List Frame) (wait : Wait) :
    let m := script.start.follow moves
    let n := (m.step me).follow later
    m.executors[me]? = some e → m.step me = m.put me current (w.startBlocking base wait) →
      (m.step me).along (Machine.isOpen me base.length) later →
      ∃ (rounds : List (List Outcome)) (stage : CallStage),
        (∀ outcomes ∈ rounds, ∀ o ∈ outcomes, o.isOk) ∧ stage.IsSound ∧
          (m.step me).log (Machine.heard me base.length) later =
            rounds.flatMap (retry wait.isResumable) ++ stage.events wait.isResumable ∧
          n.returned? me base.length = stage.outcome? ∧
          ((m.step me).along (Machine.minds wait.thread me) later →
            (n.world.thread wait.thread).status =
              stage.status (w.thread wait.thread).status (n.naps wait.thread me)) := by
  intro m n he hstep hrun
  have hposed : (m.step me).Poised := (Machine.Poised.follow script moves).step me
  have he' : (m.step me).executors[me]? =
      some ⟨current, .attempt wait, .blocking wait (w.thread wait.thread).status :: base⟩ := by
    rw [hstep]
    exact Machine.executors_put he _ _
  have hbegun : (m.step me).Hears wait base me [] .entering :=
    ⟨trivial, ⟨_, wait, wait, _, base, he', rfl, .refl wait, rfl, rfl, .refl wait⟩, [], nofun, rfl⟩
  have hrest : (m.step me).AtRest wait.thread (w.thread wait.thread).status me := by
    refine ⟨_, he', (Task.atRest_of_blocking rfl).mpr ?_⟩
    rw [if_pos rfl, hstep]
    exact ⟨rfl, (w.status_updateThread _ _ _).trans (if_pos rfl), nofun⟩
  obtain ⟨stage, hsound, hcall, rounds, hrounds, hevents⟩ := hbegun.follow hposed hrun
  rw [List.nil_append] at hevents
  refine ⟨rounds, stage, hrounds, hsound, hevents, hcall.returned, fun hminds => ?_⟩
  exact hcall.status (hposed me _ he').standing.below.free (hrest.follow hposed hminds)

/-- A call is interrupted twice. An action that runs after the first interruption makes a blocking
call for the same thread; after the second one, an action of somebody else fails. -/
def nestedBlocking : Script where
  options := {}
  watched := []
  steps := [
    .mk false (.call (.spawn "helper" none
      (.mk [.mk false (.thread (.submit "main" "late" (.mk [] (some .killed) none .null)))]
        none none .null))),
    .mk false (.thread (.submit "main" "nested"
      (.mk [.mk false (.call (.runUntil "main" [.interrupted] false))] none none .null))),
    .mk false (.call (.runUntil "main" [.interrupted, .interrupted] false))]

/-- The call goes through its first interruption, somebody submits the action that fails, and the
call returns. -/
def nestedBlockingMoves : List Move :=
  List.replicate 13 (.step 0) ++ .step 1 :: List.replicate 4 (.step 0)

theorem blocking_calls_poll_and_resume_nestedBlocking :
    let m := nestedBlocking.start.follow (List.replicate 6 (.step 0))
    let n := (m.step 0).follow nestedBlockingMoves
    (∃ (rounds : List (List Outcome)) (outcomes : List Outcome) (failure : Failure),
        (∀ outcomes ∈ rounds, ∀ o ∈ outcomes, o.isOk) ∧
          PollResult outcomes (.error failure) ∧
          (m.step 0).log (Machine.heard 0 3) nestedBlockingMoves =
            rounds.flatMap (retry true) ++ (CallStage.failed outcomes failure).events true ∧
          n.returned? 0 3 = some (.error failure)) ∧
      ((m.step 0).world.thread 1).status = .sleep ∧ (n.world.thread 1).status = .run := by
  intro m n
  obtain ⟨e, he, hstep⟩ : ∃ e, m.executors[0]? = some e ∧ m.step 0 = m.put 0 e.current
      (m.world.startBlocking (.showing (.attempts 1) :: e.stack)
        (.scripted 1 [.interrupted, .interrupted] false)) :=
    ⟨_, rfl, rfl⟩
  have hheight : (Frame.showing (.attempts 1) :: e.stack).length = 3 := by
    cases he
    rfl
  have hreturned : (n.returned? 0 3).isSome := by decide +kernel
  have hresumed : ((m.step 0).log (Machine.heard 0 3) nestedBlockingMoves).getLast?.any fun
      | .resumed => true
      | _ => false := by decide +kernel
  have hasleep : ((m.step 0).world.thread 1).status = .sleep := by decide +kernel
  have hentry : (m.world.thread 1).status = .run := by decide +kernel
  have hcall := blocking_calls_poll_and_resume nestedBlocking (List.replicate 6 (.step 0))
    nestedBlockingMoves 0 e e.current m.world _ _ he hstep
  rw [hheight] at hcall
  obtain ⟨rounds, stage, hrounds, hsound, hlog, hstage, hstatus⟩ := hcall (by decide +kernel)
  rw [hstage] at hreturned
  rw [hlog] at hresumed
  cases stage with
  | failed outcomes failure =>
      refine ⟨⟨rounds, outcomes, failure, hrounds, hsound.1, hlog, hstage⟩, hasleep, ?_⟩
      exact (hstatus (by decide +kernel)).trans hentry
  | answered y | broken text => simp [CallStage.events] at hresumed
  | _ => cases hreturned

end RubyRuntime.Session
