import RubyRuntime.Proofs.Session.Transfers

/-!
# From submission to start

What a step adds to the queued actions of a thread and what it takes from them, and how the flag
that announces actions follows. Added to the steps of a session are submissions by senders outside
of it, who may come between any two of its steps and who announce an action only after they have
queued it. All along, what has been queued is what has been started and what is still queued, in
this order.
-/
namespace RubyRuntime

namespace Sync

variable {α : Type} {s s' s'' : Sync α} {u : ThreadId} {new new' : List α}

structure Receives (s : Sync α) (u : ThreadId) (new : List α) (s' : Sync α) : Prop where
  actions : (s'.thread u).actions = (s.thread u).actions ++ new
  pending : (s'.thread u).pending = ((s.thread u).pending || !new.isEmpty)

theorem SameActions.receives (h : s.SameActions s') (u : ThreadId) : s.Receives u [] s' :=
  ⟨by simp [h.actions], by simp [h.pending]⟩

theorem Receives.trans (h : s.Receives u new s') (h' : s'.Receives u new' s'') :
    s.Receives u (new ++ new') s'' := by
  refine ⟨by simp [h.actions, h'.actions], ?_⟩
  rw [h'.pending, h.pending]
  cases new <;> simp

theorem receives_submit (s : Sync α) (t u : ThreadId) (action : α) :
    s.Receives u (List.replicate ([t].count u) action) (s.submit t action) := by
  by_cases htu : t = u
  · subst htu
    have hthread : (s.submit t action).thread t =
        (Signal.submitting action).deliver (s.thread t) := by
      rw [submit, thread_updateThread, if_pos rfl]
      rfl
    obtain ⟨hactions, hpending⟩ := Signal.actions_submit action (s.thread t)
    constructor <;> simp [hthread, hactions, hpending]
  · have hthread : (s.submit t action).thread u = s.thread u := by
      rw [submit, thread_updateThread, if_neg htu]
      rfl
    constructor <;> simp [hthread, htu]

/-- What thread `u` gets of an action that is queued on those of the threads `ts` that are alive. -/
def addressed (s : Sync α) (u : ThreadId) (ts : List ThreadId) (action : α) : List α :=
  if (s.thread u).isAlive then List.replicate (ts.count u) action else []

private theorem isAlive_submit (s : Sync α) (t u : ThreadId) (action : α) :
    ((s.submit t action).thread u).isAlive = (s.thread u).isAlive := by
  have hstep : ∀ (signal : Signal α) thread, (signal.step thread).2.isAlive = thread.isAlive := by
    intro signal thread
    cases signal with
    | entering =>
        simp only [Signal.step]
        split <;> rfl
    | _ => rfl
  rw [submit, thread_updateThread]
  split
  · exact Signal.field_deliver (·.isAlive) hstep _ _
  · rfl

theorem receives_submitIfAlive (s : Sync α) (t u : ThreadId) (action : α) :
    s.Receives u (s.addressed u [t] action) (s.submitIfAlive t action) := by
  unfold submitIfAlive addressed
  by_cases htu : t = u
  · subst htu
    split
    · exact receives_submit s t t action
    · exact (SameActions.refl s).receives t
  · have hnone :
        (if (s.thread u).isAlive then List.replicate ([t].count u) action else []) = [] := by
      simp [htu]
    rw [hnone]
    split
    · simpa [htu] using receives_submit s t u action
    · exact (SameActions.refl s).receives u

theorem receives_submitAll (s : Sync α) (ts : List ThreadId) (u : ThreadId) (action : α) :
    s.Receives u (s.addressed u ts action) (s.submitAll ts action) := by
  unfold submitAll
  induction ts generalizing s with
  | nil => simpa [addressed] using (SameActions.refl s).receives u
  | cons t ts ih =>
      have halive : ((s.submitIfAlive t action).thread u).isAlive = (s.thread u).isAlive := by
        unfold submitIfAlive
        split
        · exact isAlive_submit s t u action
        · rfl
      have hsplit : s.addressed u (t :: ts) action =
          s.addressed u [t] action ++ (s.submitIfAlive t action).addressed u ts action := by
        simp only [addressed, halive]
        split
        · rw [List.replicate_append_replicate]
          congr 1
          simp only [List.count_cons, List.count_nil]
          omega
        · rfl
      rw [hsplit]
      exact (receives_submitIfAlive s t u action).trans (ih _)

end Sync

namespace Session

def ThreadOp.submissions (w : World) (u : ThreadId) : ThreadOp Body → List Action
  | .raiseIn name e => w.sync.addressed u [(w.threadNamed name).1] (.raises e)
  | .kill name => w.sync.addressed u [(w.threadNamed name).1] .kills
  | .submit name label body =>
    List.replicate ([(w.threadNamed name).1].count u) (.callback label body)
  | .pauseAll label body => w.sync.addressed u w.sync.registered (.callback label body)
  | .pauseSome names label body =>
    w.sync.addressed u (w.threadsNamed names).1 (.callback label body)
  | _ => []

private theorem isAlive_threadNamed (w : World) (name : String) (u : ThreadId) :
    ((w.threadNamed name).2.thread u).isAlive = (w.thread u).isAlive := by
  unfold World.threadNamed
  split
  · rfl
  · exact w.sync.field_createThread (some name) (·.isAlive) rfl u

private theorem isAlive_threadsNamed (w : World) (names : List String) (u : ThreadId) :
    ((w.threadsNamed names).2.thread u).isAlive = (w.thread u).isAlive :=
  World.threadsNamed_keeps (P := fun w' => (w'.thread u).isAlive = (w.thread u).isAlive)
    (fun w' name h => (isAlive_threadNamed w' name u).trans h) names rfl

theorem ThreadOp.receives_perform (op : ThreadOp Body) (scope : Scope) (w : World) (u : ThreadId)
    (h : op.isSubmission) :
    w.sync.Receives u (op.submissions w u) (op.perform scope w).1.world.sync := by
  have haddressed : ∀ {w' : World} ts action, (w'.thread u).isAlive = (w.thread u).isAlive →
      w.sync.addressed u ts action = w'.sync.addressed u ts action := by
    intro w' ts action halive
    simp only [Sync.addressed]
    rw [show (w'.sync.thread u).isAlive = (w.sync.thread u).isAlive from halive]
  have hnamed := fun name => (w.quiet_threadNamed name).sync.receives u
  cases op with
  | raiseIn name e =>
      simp only [submissions, haddressed _ _ (isAlive_threadNamed w name u)]
      exact (hnamed name).trans (Sync.receives_submitIfAlive _ _ u _)
  | kill name =>
      simp only [submissions, haddressed _ _ (isAlive_threadNamed w name u)]
      exact (hnamed name).trans (Sync.receives_submitIfAlive _ _ u _)
  | submit name label body => exact (hnamed name).trans (Sync.receives_submit _ _ u _)
  | pauseAll label body => exact Sync.receives_submitAll w.sync _ u _
  | pauseSome names label body =>
      simp only [submissions, haddressed _ _ (isAlive_threadsNamed w names u)]
      exact ((w.quiet_threadsNamed names).sync.receives u).trans (Sync.receives_submitAll _ _ u _)
  | _ => cases h

theorem ThreadOp.submissions_eq_nil {op : ThreadOp Body} (w : World) (u : ThreadId)
    (h : op.isSubmission = false) : op.submissions w u = [] := by
  cases op <;> first | rfl | cases h

namespace World

def launch (w : World) (stack : List Frame) (t : ThreadId) : Action → Task
  | .callback label body =>
    w.startBody (.polling t :: stack)
      (.callback [("action", .text label), ("on", .textOrNull (w.threadLabel? t))]) body
  | .raises e => w.giveError (.polling t :: stack) (.raised e)
  | .kills => w.giveError (.polling t :: stack) .killed

variable (w : World) (stack : List Frame) (t u : ThreadId)

theorem nextAction_of_cons {action : Action} {rest : List Action}
    (h : (w.thread t).actions = action :: rest) :
    w.nextAction stack t = (w.popped t).launch stack t action := by
  cases action <;> simp [nextAction, launch, popped, ThreadRecord.popAction, h]

theorem nextAction_of_nil (h : (w.thread t).actions = []) :
    w.nextAction stack t =
      ((w.popped t).updateSync fun s => { s with safepoints := s.safepoints + 1 }).give stack
        .unit := by
  simp [nextAction, popped, ThreadRecord.popAction, h]

theorem thread_popped :
    (w.popped t).thread u = if t = u then (w.thread u).popAction.2 else w.thread u := by
  unfold popped
  rw [World.thread, updateThread, updateSync, Sync.thread_updateThread]
  split
  · next htu => rw [htu]
  · rfl

end World

namespace Machine

def submissions (me : Nat) (t : ThreadId) (m : Machine) : List Action :=
  match m.executors[me]?.map Executor.control with
  | some (.perform (.thread op)) => op.submissions m.world t
  | _ => []

/-- The action of thread `t` that the next step of executor `me` starts: the oldest one, when it
looks for an action in a poll of the thread. -/
def starts? (me : Nat) (t : ThreadId) (m : Machine) : Option Action :=
  match m.executors[me]?.bind (·.looks? m.world) with
  | some (u, _) => if u = t then (m.world.thread t).actions.head? else none
  | none => none

variable {m : Machine} {me : Nat} {e : Executor} {t : ThreadId}

private theorem submissions_of_looks (he : m.executors[me]? = some e) {poll : ThreadId × List Frame}
    (h : e.looks? m.world = some poll) : m.submissions me t = [] := by
  unfold submissions
  split
  · next op hop =>
    have hcontrol : e.control = .perform (.thread op) := by simpa [he] using hop
    simp [Executor.looks?, Executor.polls?, Executor.pollsOn?, hcontrol] at h
  · rfl

private theorem thread_step_looks {u : ThreadId} {base : List Frame}
    (he : m.executors[me]? = some e) (h : e.looks? m.world = some (u, base)) :
    ((m.step me).world.thread t).actions =
        (if u = t then (m.world.thread t).actions.tail else (m.world.thread t).actions) ∧
      ((m.step me).world.thread t).pending =
        (if u = t then (m.world.thread t).pending && !(m.world.thread t).actions.tail.isEmpty
          else (m.world.thread t).pending) := by
  obtain ⟨w, hquiet, hstep⟩ := step_looks he h
  have hnext := (w.quiet_nextAction base u).sync
  have hworld : (m.step me).world = (w.nextAction base u).world := by rw [hstep]; rfl
  have hpopped := w.thread_popped u t
  rw [hworld]
  constructor
  · rw [World.thread, hnext.actions, ← World.thread, hpopped]
    split <;> simp [ThreadRecord.popAction, World.thread, hquiet.sync.actions]
  · rw [World.thread, hnext.pending, ← World.thread, hpopped]
    split <;>
      simp [ThreadRecord.popAction, World.thread, hquiet.sync.actions, hquiet.sync.pending]

theorem receives_step (he : m.executors[me]? = some e) (hlooks : e.looks? m.world = none) :
    m.world.sync.Receives t (m.submissions me t) (m.step me).world.sync := by
  have hsame : (∀ op, e.control = .perform (.thread op) → op.isSubmission = false) →
      m.submissions me t = [] →
      m.world.sync.Receives t (m.submissions me t) (m.step me).world.sync := by
    intro hsubmits hnone
    rw [hnone]
    exact (sameActions_step he hlooks hsubmits).receives t
  by_cases hop : ∃ op, e.control = .perform (.thread op)
  · obtain ⟨op, hcontrol⟩ := hop
    have hsubmissions : m.submissions me t = op.submissions m.world t := by
      simp [submissions, he, hcontrol]
    cases hsubmits : op.isSubmission with
    | true =>
        rw [hsubmissions]
        simp only [step, he, hcontrol]
        exact op.receives_perform _ m.world t hsubmits
    | false =>
        refine hsame ?_ (hsubmissions.trans (op.submissions_eq_nil m.world t hsubmits))
        rintro other hother
        cases hcontrol.symm.trans hother
        exact hsubmits
  · refine hsame (fun op hcontrol => absurd ⟨op, hcontrol⟩ hop) ?_
    unfold submissions
    split
    · next op hcontrol => exact absurd ⟨op, by simpa [he] using hcontrol⟩ hop
    · rfl

/-- What is queued after a step is what was queued before without the action that is started, and
then what the step queues. -/
theorem actions_step (m : Machine) (me : Nat) (t : ThreadId) :
    (m.world.thread t).actions ++ m.submissions me t =
      (m.starts? me t).toList ++ ((m.step me).world.thread t).actions := by
  cases he : m.executors[me]? with
  | none => simp [submissions, starts?, step, he]
  | some e =>
      cases hlooks : e.looks? m.world with
      | none =>
          have hstarts : m.starts? me t = none := by simp [starts?, he, hlooks]
          rw [hstarts]
          exact (receives_step he hlooks).actions.symm
      | some poll =>
          obtain ⟨u, base⟩ := poll
          have hstarts : m.starts? me t =
              if u = t then (m.world.thread t).actions.head? else none := by
            simp [starts?, he, hlooks]
          rw [submissions_of_looks he hlooks, hstarts, (thread_step_looks he hlooks).1]
          split
          · cases (m.world.thread t).actions <;> simp
          · simp

theorem pending_step (m : Machine) (me : Nat) (t : ThreadId)
    (h : ((m.step me).world.thread t).actions ≠ []) :
    ((m.step me).world.thread t).pending = true ∨
      (m.world.thread t).actions ≠ [] ∧
        ((m.step me).world.thread t).pending = (m.world.thread t).pending := by
  cases he : m.executors[me]? with
  | none =>
      have hsame : m.step me = m := by simp [step, he]
      rw [hsame] at h ⊢
      exact .inr ⟨h, rfl⟩
  | some e =>
      cases hlooks : e.looks? m.world with
      | none =>
          obtain ⟨hactions, hpending⟩ := receives_step (t := t) he hlooks
          cases hnew : m.submissions me t with
          | nil =>
              rw [hnew] at hactions hpending
              refine .inr ⟨?_, by simpa [World.thread] using hpending⟩
              simpa [World.thread, hactions] using h
          | cons action rest =>
              rw [hnew] at hpending
              exact .inl (by simpa [World.thread] using hpending)
      | some poll =>
          obtain ⟨u, base⟩ := poll
          obtain ⟨hactions, hpending⟩ := thread_step_looks (t := t) he hlooks
          rw [hactions] at h
          split at h
          · next htu =>
            -- The flag is lowered only with the last action, and here others are left.
            refine .inr ⟨?_, ?_⟩
            · intro hnone
              exact h (by simp [hnone])
            · rw [hpending, if_pos htu]
              simp [h]
          · next htu => exact .inr ⟨h, by rw [hpending, if_neg htu]⟩

end Machine

/-- A session together with senders outside of it, each on the way to submit an action to a
thread. -/
structure Traffic where
  machine : Machine
  senders : List (ThreadId × Signal Action) := []

inductive Event where
  | move (move : Move)
  | send (t : ThreadId) (action : Action)
  | advance (i : Nat)

namespace Traffic

def occur (x : Traffic) : Event → Traffic
  | .move move => { x with machine := x.machine.move move }
  | .send t action =>
    { machine := { x.machine with
        world := x.machine.world.updateSync fun s => { s with submitted := s.submitted + 1 } }
      senders := x.senders ++ [(t, .submitting action)] }
  | .advance i =>
    match x.senders[i]? with
    | some (t, signal) =>
      let (signal, thread) := signal.step (x.machine.world.thread t)
      { machine := { x.machine with world := x.machine.world.updateThread t fun _ => thread }
        senders := x.senders.set i (t, signal) }
    | none => x

def follow (x : Traffic) (events : List Event) : Traffic :=
  events.foldl occur x

/-- What `f` notes of each event when it is about to occur, in order. -/
def log {β : Type} (f : Traffic → Event → List β) : Traffic → List Event → List β
  | _, [] => []
  | x, event :: events => f x event ++ (x.occur event).log f events

def actions (t : ThreadId) (x : Traffic) : List Action :=
  (x.machine.world.thread t).actions

def queues (t : ThreadId) (x : Traffic) : Event → List Action
  | .move (.step me) => x.machine.submissions me t
  | .advance i =>
    match x.senders[i]? with
    | some (u, .submitting action) => if u = t then [action] else []
    | _ => []
  | _ => []

def starts (t : ThreadId) (x : Traffic) : Event → List Action
  | .move (.step me) => (x.machine.starts? me t).toList
  | _ => []

def isQuiet (t : ThreadId) (x : Traffic) : Bool :=
  x.senders.all fun sender => sender.1 != t ||
    match sender.2 with
    | .delivered => true
    | _ => false

variable {x : Traffic} {t : ThreadId}

theorem thread_advance {i : Nat} {u : ThreadId} {signal : Signal Action}
    (hi : x.senders[i]? = some (u, signal)) :
    (x.occur (.advance i)).machine.world.thread t =
        (if u = t then (signal.step (x.machine.world.thread t)).2
          else x.machine.world.thread t) ∧
      (x.occur (.advance i)).senders =
        x.senders.set i (u, (signal.step (x.machine.world.thread u)).1) := by
  refine ⟨?_, by simp [occur, hi]⟩
  simp only [occur, hi]
  rw [World.thread, World.updateThread, World.updateSync, Sync.thread_updateThread]
  split
  · next htu => rw [htu]
  · rfl

theorem actions_occur (x : Traffic) (t : ThreadId) (event : Event) :
    x.actions t ++ x.queues t event = x.starts t event ++ (x.occur event).actions t := by
  cases event with
  | move move =>
      cases move with
      | step me => exact x.machine.actions_step me t
      | tick millis => exact List.append_nil _
  | send u action => exact List.append_nil _
  | advance i =>
      cases hi : x.senders[i]? with
      | none => simp [queues, starts, occur, hi]
      | some sender =>
          obtain ⟨u, signal⟩ := sender
          obtain ⟨hthread, -⟩ := thread_advance (t := t) hi
          simp only [starts, actions, hthread, List.nil_append]
          by_cases hsilent : signal.isSilent
          · have hqueues : x.queues t (.advance i) = [] := by
              simp only [queues, hi]
              cases signal <;> first | rfl | cases hsilent
            rw [hqueues]
            split <;> simp [(Signal.actions_step hsilent _).2.1]
          · cases signal with
            | submitting action =>
                simp only [queues, hi]
                split
                · rfl
                · simp
            | marking =>
                simp only [queues, hi]
                split <;> simp [Signal.step, ThreadRecord.markPending]
            | _ => exact absurd rfl hsilent

/-- What was queued at first and what has been queued since is what has been started and what is
queued now. -/
theorem actions_follow (x : Traffic) (t : ThreadId) (events : List Event) :
    x.actions t ++ x.log (queues t) events =
      x.log (starts t) events ++ (x.follow events).actions t := by
  induction events generalizing x with
  | nil => simp [log, follow]
  | cons event events ih =>
      calc
        x.actions t ++ (x.queues t event ++ (x.occur event).log (queues t) events)
          = (x.actions t ++ x.queues t event) ++ (x.occur event).log (queues t) events := by simp
        _ = x.starts t event ++
              ((x.occur event).actions t ++ (x.occur event).log (queues t) events) := by
            rw [actions_occur, List.append_assoc]
        _ = x.starts t event ++ ((x.occur event).log (starts t) events ++
              ((x.occur event).follow events).actions t) := by rw [ih]
        _ = x.log (starts t) (event :: events) ++ (x.follow (event :: events)).actions t := by
            simp [log, follow]

/-- Queued actions of thread `t` are announced, or one of those who queued them is just about to
announce them. -/
def IsAnnounced (t : ThreadId) (x : Traffic) : Prop :=
  x.actions t ≠ [] → (x.machine.world.thread t).pending = true ∨ (t, .marking) ∈ x.senders

theorem IsAnnounced.pending (h : x.IsAnnounced t) (hquiet : x.isQuiet t)
    (hactions : x.actions t ≠ []) : (x.machine.world.thread t).pending = true := by
  rcases h hactions with hpending | hmarking
  · exact hpending
  · have hsender := List.all_eq_true.mp hquiet _ hmarking
    simp at hsender

theorem mem_set_of_ne {β : Type} {a b c : β} {l : List β} {i : Nat} (ha : a ∈ l)
    (hb : l[i]? = some b) (hne : b ≠ a) : a ∈ l.set i c := by
  obtain ⟨j, hj⟩ := List.getElem?_of_mem ha
  have hij : i ≠ j := by
    rintro rfl
    exact hne (Option.some.inj (hb.symm.trans hj))
  exact List.mem_of_getElem? ((List.getElem?_set_ne hij).trans hj)

theorem IsAnnounced.occur (h : x.IsAnnounced t) (event : Event) :
    (x.occur event).IsAnnounced t := by
  cases event with
  | move move =>
      cases move with
      | step me =>
          intro hactions
          rcases x.machine.pending_step me t hactions with hpending | ⟨hactions, hpending⟩
          · exact .inl hpending
          · rcases h hactions with hbefore | hmarking
            · exact .inl (hpending.trans hbefore)
            · exact .inr hmarking
      | tick millis => exact h
  | send u action =>
      intro hactions
      rcases h hactions with hpending | hmarking
      · exact .inl hpending
      · exact .inr (List.mem_append_left _ hmarking)
  | advance i =>
      cases hi : x.senders[i]? with
      | none => simpa [Traffic.occur, hi] using h
      | some sender =>
          obtain ⟨u, signal⟩ := sender
          obtain ⟨hthread, hsenders⟩ := thread_advance (t := t) hi
          intro hactions
          simp only [actions, hthread] at hactions
          rw [hthread, hsenders]
          -- Whoever else is about to announce actions still is.
          have hothers : ∀ {signal'}, (u, signal) ≠ (t, .marking) → (t, .marking) ∈ x.senders →
              (t, .marking) ∈ x.senders.set i (u, signal') :=
            fun hne hmarking => mem_set_of_ne hmarking hi hne
          by_cases htu : u = t
          · subst htu
            rw [if_pos rfl] at hactions ⊢
            by_cases hsilent : signal.isSilent
            · obtain ⟨-, hsame, hpending⟩ := Signal.actions_step hsilent (x.machine.world.thread u)
              rw [hsame] at hactions
              rw [hpending]
              refine (h hactions).imp id (hothers ?_)
              rintro heq
              cases heq
              cases hsilent
            · cases signal with
              | submitting action =>
                  refine .inr (List.mem_of_getElem? (List.getElem?_set_self ?_))
                  exact (List.getElem?_eq_some_iff.mp hi).1
              | marking => exact .inl rfl
              | _ => exact absurd rfl hsilent
          · rw [if_neg htu] at hactions ⊢
            exact (h hactions).imp id (hothers fun heq => htu (congrArg Prod.fst heq))

theorem IsAnnounced.follow (h : x.IsAnnounced t) (events : List Event) :
    (x.follow events).IsAnnounced t := by
  induction events generalizing x with
  | nil => exact h
  | cons event events ih => exact ih (h.occur event)

end Traffic

def Script.traffic (script : Script) : Traffic :=
  { machine := script.start }

theorem Script.actions_traffic (script : Script) (t : ThreadId) :
    script.traffic.actions t = [] :=
  script.still_start.sync.actions t

end Session

end RubyRuntime
