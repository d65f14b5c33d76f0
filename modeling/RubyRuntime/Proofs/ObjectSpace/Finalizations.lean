import RubyRuntime.Proofs.ObjectSpace.Chronicles
import RubyRuntime.Proofs.Session.Marks

/-!
# Runs of finalizers

A run of finalizers takes what it is going to call from the table before it makes the first call.
The finalizers may run any steps, and other executors go on meanwhile. One that fails with an error
does not keep the others from being called. The main result joins this to the registrations: over
every history of a space each finalizer is called at most once, with the id of its object, and a
collection calls those of the objects that are dead. Every session records such a history.
-/
namespace RubyRuntime.Session

def World.finalizerCalls (w : World) (held : List ObjectRef) (run : FinalizerRun) :
    List (Nat × Finalizer) :=
  let table := (w.space (w.spaceOf run)).finalizers
  match run with
  | .pending _ | .collect _ => FinalizerTable.calls (table.takeDead (w.isAlive held)).1
  | .all _ => FinalizerTable.calls table.takeAll.1

/-- What a call of a finalizer runs: its body, which reports the id that it was given. -/
def Finalizer.callWith (id : Nat) (finalizer : Finalizer) : BodyRun where
  kind := .callback [("finalizer", .text finalizer.label), ("id", .text (toString id))]
  remaining := finalizer.body.steps
  ending := finalizer.body.ending

section Starts

variable {w : World} {held : List ObjectRef} {history : RegistrationRun Finalizer}
  {run : FinalizerRun}

theorem World.finalizers_setSpace {i : Nat} {space : ObjectSpace Finalizer}
    (h : (w.space i).finalizers = {} → space.finalizers = {}) :
    ((w.setSpace i space).space i).finalizers = space.finalizers := by
  by_cases hi : i < w.spaces.length
  · simp [World.space, World.setSpace, hi]
  · have hnone : w.space i = {} := by simp [World.space, hi]
    have hsame : (w.setSpace i space).space i = {} := by simp [World.space, World.setSpace, hi]
    rw [hsame, h (by rw [hnone])]

theorem World.Agrees.finalizerCalls_eq (h : w.Agrees held (w.spaceOf run) history)
    (hsound : history.Sound) : w.finalizerCalls held run = history.calls run.event := by
  cases run with
  | pending name | collect name =>
      simp only [finalizerCalls, FinalizerRun.event, RegistrationRun.calls]
      rw [h.takeDead_eq hsound]
  | all name =>
      simp only [finalizerCalls, FinalizerRun.event, RegistrationRun.calls]
      rw [h.finalizers_eq]

/-- The finalizers are taken from the table before the first of them is called. -/
theorem World.Agrees.startFinalizers (h : w.Agrees held (w.spaceOf run) history)
    (hsound : history.Sound) (stack : List Frame) :
    ∃ w', w.startFinalizers held stack run =
        World.nextFinalizer w' stack (w.finalizerCalls held run) 0 ∧
      (w'.space (w.spaceOf run)).finalizers = (history.step run.event).space.finalizers := by
  cases run with
  | pending name | collect name =>
      refine ⟨_, rfl, (World.finalizers_setSpace fun hnone => ?_).trans ?_⟩
      · dsimp only
        rw [hnone]
        rfl
      · exact congrArg Prod.snd (h.takeDead_eq hsound)
  | all name => exact ⟨_, rfl, World.finalizers_setSpace fun _ => rfl⟩

theorem World.nextFinalizer_cons (w : World) (stack : List Frame) (id : Nat) (finalizer : Finalizer)
    (rest : List (Nat × Finalizer)) (ran : Nat) :
    w.nextFinalizer stack ((id, finalizer) :: rest) ran =
      (finalizer.callWith id).proceed w (.finalizing rest (ran + 1) :: stack) :=
  rfl

end Starts

def Outcome.hasReturned : Outcome → Bool
  | .ok _ | .error (.error _) => true
  | .error _ => false

theorem Frame.receive_finalizing {w : World} {stack : List Frame} {outcome : Outcome}
    (left : List (Nat × Finalizer)) (ran : Nat) :
    (Frame.finalizing left ran).receive w stack outcome =
      if Outcome.hasReturned outcome then w.nextFinalizer stack left ran
      else ⟨w, .give outcome, stack⟩ := by
  cases outcome with
  | ok y => rfl
  | error failure => cases failure <;> rfl

/-- Where a run of finalizers that was begun on `base` has got to, the calls that are over having
come to the given outcomes: the next one is running, or all have returned, or one has failed in
another way than by an error. -/
inductive FinalizationStage (calls : List (Nat × Finalizer)) (base : List Frame) :
    List Outcome → Control → List Frame → Prop where
  | running {outcomes : List Outcome} {control : Control} {stack : List Frame}
    (hreturned : ∀ o ∈ outcomes, Outcome.hasReturned o) (hlength : outcomes.length < calls.length)
    (habove : Above (.finalizing (calls.drop (outcomes.length + 1)) (outcomes.length + 1)) base
      stack) : FinalizationStage calls base outcomes control stack
  | done {outcomes : List Outcome} {stack : List Frame}
    (hreturned : ∀ o ∈ outcomes, Outcome.hasReturned o) (hlength : outcomes.length = calls.length)
    (hbelow : stack.map Frame.shape = base.map Frame.shape) :
    FinalizationStage calls base outcomes (.give (.ok (.report (.nat calls.length)))) stack
  | broken {outcomes : List Outcome} {failure : Failure} {stack : List Frame}
    (hreturned : ∀ o ∈ outcomes, Outcome.hasReturned o)
    (hfailure : Outcome.hasReturned (.error failure) = false)
    (hlength : outcomes.length < calls.length)
    (hbelow : stack.map Frame.shape = base.map Frame.shape) :
    FinalizationStage calls base (outcomes ++ [.error failure]) (.give (.error failure)) stack

namespace Machine

def Finalizes (calls : List (Nat × Finalizer)) (base : List Frame) (me : Nat)
    (outcomes : List Outcome) (m : Machine) : Prop :=
  ∃ e, m.executors[me]? = some e ∧ FinalizationStage calls base outcomes e.control e.stack

variable {m : Machine} {me : Nat} {e : Executor} {base below : List Frame}
  {calls : List (Nat × Finalizer)} {outcomes : List Outcome}

private theorem finalizes_nextFinalizer (outcomes : List Outcome)
    (he : m.executors[me]? = some e) {w : World}
    (hstep : m.step me = m.put me e.current
      (w.nextFinalizer below (calls.drop outcomes.length) outcomes.length))
    (hbelow : below.map Frame.shape = base.map Frame.shape)
    (hreturned : ∀ o ∈ outcomes, Outcome.hasReturned o)
    (hlength : outcomes.length ≤ calls.length) :
    (m.step me).Finalizes calls base me outcomes ∧
      ∀ id finalizer, calls[outcomes.length]? = some (id, finalizer) →
        m.Launches me base.length w (finalizer.callWith id)
          (.finalizing (calls.drop (outcomes.length + 1)) (outcomes.length + 1)) := by
  rcases Nat.eq_or_lt_of_le hlength with hall | hlt
  · rw [List.drop_eq_nil_of_le (Nat.le_of_eq hall.symm), hall] at hstep
    refine ⟨?_, fun id finalizer hcall => ?_⟩
    · rw [hstep]
      exact ⟨_, executors_put he _ _, .done hreturned hall hbelow⟩
    · rw [List.getElem?_eq_none (Nat.le_of_eq hall.symm)] at hcall
      cases hcall
  · rcases hcall : calls[outcomes.length] with ⟨id, finalizer⟩
    rw [List.drop_eq_getElem_cons hlt, hcall, World.nextFinalizer_cons] at hstep
    have hlaunched := (finalizer.callWith id).launched_proceed w
      (.finalizing (calls.drop (outcomes.length + 1)) (outcomes.length + 1) :: below) rfl
    refine ⟨?_, fun id' finalizer' hcall' => ?_⟩
    · rw [hstep]
      exact ⟨_, executors_put he _ _, .running hreturned hlt (hlaunched.above (by simp) hbelow)⟩
    · rw [List.getElem?_eq_getElem hlt, hcall] at hcall'
      cases hcall'
      exact ⟨e, below, he, length_of_shape hbelow, hstep⟩

private theorem finalizes_begun {run : FinalizerRun} {history : RegistrationRun Finalizer}
    (he : m.executors[me]? = some e) (hcontrol : e.control = .perform (.call (.finalize run)))
    (hagrees : m.world.Agrees m.held (m.world.spaceOf run) history) (hsound : history.Sound) :
    let calls := history.calls run.event
    (m.step me).Finalizes calls (.showing .shown :: e.stack) me [] ∧
      (∀ id finalizer, calls.head? = some (id, finalizer) →
        m.Launches me (e.stack.length + 1) (m.step me).world (finalizer.callWith id)
          (.finalizing calls.tail 1)) ∧
      ((m.step me).world.space (m.world.spaceOf run)).finalizers =
        (history.step run.event).space.finalizers := by
  intro calls
  have hcalls : m.world.finalizerCalls m.held run = calls := hagrees.finalizerCalls_eq hsound
  obtain ⟨w, hstart, htable⟩ := hagrees.startFinalizers hsound (.showing .shown :: e.stack)
  have hstep : m.step me = m.put me e.current (w.nextFinalizer (.showing .shown :: e.stack)
      calls 0) := by
    rw [← hcalls, ← hstart]
    simp [step, he, hcontrol, perform, CallOp.start]
  have hworld : (m.step me).world = w := by
    rw [hstep]
    exact w.world_nextFinalizer _ _ _
  obtain ⟨hbegun, hlaunches⟩ :=
    finalizes_nextFinalizer [] he hstep rfl (List.forall_mem_nil _) (Nat.zero_le _)
  refine ⟨hbegun, fun id finalizer hcall => ?_, hworld ▸ htable⟩
  rw [hworld, ← List.drop_one]
  exact hlaunches id finalizer (List.head?_eq_getElem? ▸ hcall)

theorem Finalizes.step_self (h : m.Finalizes calls base me outcomes)
    (hopen : m.returned? me base.length = none) :
    (m.step me).Finalizes calls base me (outcomes ++ m.blockOutcomes me base.length me) ∧
      ∀ outcome id finalizer, m.returned? me (base.length + 1) = some outcome →
        Outcome.hasReturned outcome → calls[outcomes.length + 1]? = some (id, finalizer) →
          m.Launches me base.length m.world (finalizer.callWith id)
            (.finalizing (calls.drop (outcomes.length + 2)) (outcomes.length + 2)) := by
  obtain ⟨e, he, hstage⟩ := h
  generalize hcontrol : e.control = control at hstage
  generalize hstack : e.stack = stack at hstage
  cases hstage with
  | running hreturned hlength habove =>
      rw [← hstack] at habove
      rcases handed_or_above he rfl habove with
        ⟨outcome, below, hhanded, hgive, hframes, hbelow⟩ | ⟨hbusy, e', he', habove'⟩
      · have hstep := step_give he hgive hframes
        rw [Frame.receive_finalizing] at hstep
        simp only [blockOutcomes, if_true, hhanded, Option.toList_some]
        cases hover : Outcome.hasReturned outcome with
        | true =>
            rw [if_pos hover] at hstep
            have hmore : (outcomes ++ [outcome]).length = outcomes.length + 1 := by simp
            have hall : ∀ o ∈ outcomes ++ [outcome], Outcome.hasReturned o :=
              List.forall_mem_append.mpr ⟨hreturned, List.forall_mem_singleton.mpr hover⟩
            rw [← hmore] at hstep
            have hnext := finalizes_nextFinalizer _ he hstep hbelow hall (hmore ▸ hlength)
            rw [hmore] at hnext
            exact ⟨hnext.1, fun _ id finalizer _ _ => hnext.2 id finalizer⟩
        | false =>
            rw [if_neg (by simp [hover])] at hstep
            refine ⟨?_, fun other id finalizer hsame hother => ?_⟩
            · obtain ⟨failure, rfl⟩ : ∃ failure, outcome = .error failure := by
                cases outcome with
                | ok y => cases hover
                | error failure => exact ⟨failure, rfl⟩
              rw [hstep]
              exact ⟨_, executors_put he _ _, .broken hreturned hover hlength hbelow⟩
            · cases hsame
              rw [hover] at hother
              cases hother
      · rw [hbusy]
        simp only [blockOutcomes, if_true, hbusy, Option.toList_none, List.append_nil]
        exact ⟨⟨e', he', .running hreturned hlength habove'⟩, nofun⟩
  | done hreturned hlength hbelow | broken hreturned hfailure hlength hbelow =>
      rw [returned?_of_base he (hstack ▸ hbelow) hcontrol] at hopen
      cases hopen

theorem Finalizes.step_of_ne {i : Nat} (h : m.Finalizes calls base me outcomes) (hi : i ≠ me) :
    (m.step i).Finalizes calls base me (outcomes ++ m.blockOutcomes me base.length i) := by
  obtain ⟨e, he, hstage⟩ := h
  simp only [blockOutcomes, if_neg hi, List.append_nil]
  exact ⟨e, executors_step_of_ne (Ne.symm hi) he, hstage⟩

theorem Finalizes.follow {moves : List Move} (h : m.Finalizes calls base me outcomes)
    (hrun : m.along (isOpen me base.length) moves) :
    (m.follow moves).Finalizes calls base me
      (outcomes ++ m.log (blockOutcomes me base.length) moves) := by
  induction moves generalizing m outcomes with
  | nil => simpa [log] using h
  | cons move moves ih =>
      cases move with
      | step i =>
          simp only [along, Bool.and_eq_true] at hrun
          obtain ⟨hstep, hrun⟩ := hrun
          have hnext : (m.step i).Finalizes calls base me
              (outcomes ++ m.blockOutcomes me base.length i) := by
            by_cases hi : i = me
            · subst hi
              exact (h.step_self (by simpa [isOpen] using hstep)).1
            · exact h.step_of_ne hi
          simpa [log] using ih hnext hrun
      | tick millis =>
          obtain ⟨e, he, hstage⟩ := h
          have hlater : (m.tick millis).Finalizes calls base me outcomes := ⟨e, he, hstage⟩
          exact ih hlater hrun

theorem Finalizes.returned (h : m.Finalizes calls base me outcomes) :
    (∀ o ∈ outcomes.dropLast, Outcome.hasReturned o) ∧ outcomes.length ≤ calls.length ∧
      (∀ y, m.returned? me base.length = some (.ok y) →
        outcomes.length = calls.length ∧ y = .report (.nat calls.length)) ∧
      (∀ failure, m.returned? me base.length = some (.error failure) →
        outcomes.getLast? = some (.error failure) ∧ ∀ error, failure ≠ .error error) ∧
      (m.returned? me base.length = none →
        (∀ o ∈ outcomes, Outcome.hasReturned o) ∧ outcomes.length < calls.length) := by
  have hearlier : (∀ o ∈ outcomes, Outcome.hasReturned o) →
      ∀ o ∈ outcomes.dropLast, Outcome.hasReturned o :=
    fun h o ho => h o ((List.dropLast_sublist _).subset ho)
  obtain ⟨e, he, hstage⟩ := h
  generalize hcontrol : e.control = control at hstage
  generalize hstack : e.stack = stack at hstage
  cases hstage with
  | running hreturned hlength habove =>
      have hopen := returned?_of_above he (hstack ▸ habove)
      refine ⟨hearlier hreturned, Nat.le_of_lt hlength, ?_, ?_, fun _ => ⟨hreturned, hlength⟩⟩
      · simp [hopen]
      · simp [hopen]
  | done hreturned hlength hbelow =>
      rw [returned?_of_base he (hstack ▸ hbelow) hcontrol]
      refine ⟨hearlier hreturned, Nat.le_of_eq hlength, fun y hy => ?_, by simp, by simp⟩
      cases hy
      exact ⟨hlength, rfl⟩
  | broken hreturned hfailure hlength hbelow =>
      rw [returned?_of_base he (hstack ▸ hbelow) hcontrol]
      refine ⟨by simpa using hreturned, ?_, by simp, fun failure heq => ?_, by simp⟩
      · rw [List.length_append]
        exact hlength
      cases heq
      refine ⟨by simp, ?_⟩
      rintro error rfl
      cases hfailure

end Machine

/-- Every finalizer is called at most once. Whatever has happened to a space and its objects, each
registration is outstanding, removed or called, and bears the id of its object. What an event takes
from the table comes to the calls of the registrations that are due, each once and those of one
object in order; except when all are run, these belong to dead objects, and after a collection no
registration of an object that was dead is outstanding. Removing the finalizers of a live object
removes its own and no others. In a session, a run of finalizers takes them from the table at once
and runs their bodies one by one, each with its id, whatever they and others do meanwhile and
whether they return an error or not; it returns the number of calls when it has made all of them.
Every session records such a history of each of its spaces, in which objects die when they are no
longer held and the requests are those of its steps. -/
theorem finalizers_called_once (ids : IdTable) (events : List (RegistrationEvent Finalizer)) :
    let history := ({ space := { ids } } : RegistrationRun Finalizer).along events
    (history.registrations.map (·.number)).Perm (List.range history.count) ∧
    (∀ r ∈ history.registrations,
      r.object ∈ history.objects ∧ r.id = history.heap.readId r.object ∧ r.id ≠ 0) ∧
    (∀ event, InTurn (history.calls event) (history.due event) ∧
      (history.due event).Pairwise (fun r s => r.number < s.number) ∧
      (history.step event).called = history.called ++ history.due event ∧
      (event ≠ .runAll → ∀ r ∈ history.due event, r.object ∈ history.dead)) ∧
    (∀ r ∈ (history.step .collect).outstanding, r.object ∉ history.dead) ∧
    (∀ o, history.isAlive o →
      let undefined := history.space.finalizers.undefine history.isAlive o
      undefined.1 = (registeredOn o history.outstanding).length ∧
        InTurn (FinalizerTable.calls undefined.2.takeAll.1)
          (history.outstanding.filter fun r => r.object ≠ o)) ∧
    (∀ (m : Machine) me e run, m.executors[me]? = some e →
      e.control = .perform (.call (.finalize run)) →
      m.world.Agrees m.held (m.world.spaceOf run) history →
      let height := e.stack.length + 1
      let calls := history.calls run.event
      ((m.step me).world.space (m.world.spaceOf run)).finalizers =
          (history.step run.event).space.finalizers ∧
        (∀ id finalizer, calls.head? = some (id, finalizer) →
          m.Launches me height (m.step me).world (finalizer.callWith id)
            (.finalizing calls.tail 1)) ∧
        ∀ later, (m.step me).along (Machine.isOpen me height) later →
          let last := (m.step me).follow later
          let outcomes := (m.step me).log (Machine.blockOutcomes me height) later
          (∀ o ∈ outcomes.dropLast, Outcome.hasReturned o) ∧
            (last.returned? me height = none → outcomes.length < calls.length ∧
              ∀ outcome id finalizer, last.returned? me (height + 1) = some outcome →
                Outcome.hasReturned outcome → calls[outcomes.length + 1]? = some (id, finalizer) →
                  last.Launches me height last.world (finalizer.callWith id)
                    (.finalizing (calls.drop (outcomes.length + 2)) (outcomes.length + 2))) ∧
            (∀ y, last.returned? me height = some (.ok y) → outcomes.length = calls.length ∧
              y = .report (.nat (history.due run.event).length)) ∧
            ∀ failure, last.returned? me height = some (.error failure) →
              outcomes.length ≤ calls.length ∧ outcomes.getLast? = some (.error failure) ∧
                ∀ error, failure ≠ .error error) ∧
    ∀ (script : Script) moves i, ∃ recorded : List (RegistrationEvent Finalizer),
      let last := script.start.follow moves
      let history := ({} : RegistrationRun Finalizer).along recorded
      recorded.filter (·.isRequest) = script.start.log (Machine.requests i) moves ∧
        last.world.heap = history.heap ∧ last.world.Agrees last.held i history := by
  intro history
  have hsound : history.Sound := (RegistrationRun.Sound.start ids).along events
  refine ⟨hsound.numbered, hsound.genuine, fun event => ⟨hsound.inTurn_calls event,
    hsound.ordered_due event, RegistrationRun.called_step event,
    fun hevent r hr => hsound.dead_of_due hr hevent⟩, ?_, ?_, ?_, ?_⟩
  · intro r hr
    exact (RegistrationRun.isAlive_iff.mp (List.mem_filter.mp hr).2).2
  · intro o ho
    obtain ⟨hcount, htracks⟩ := hsound.tracks.undefine ho fun p hp => hsound.address_inj p o hp ho
    exact ⟨hcount, htracks.lists.inTurn_calls⟩
  · intro m me e run he hcontrol hagrees height calls
    obtain ⟨hbegun, hfirst, htable⟩ := Machine.finalizes_begun he hcontrol hagrees hsound
    refine ⟨htable, hfirst, fun later hrun => ?_⟩
    have hlast := hbegun.follow hrun
    obtain ⟨hreturned, hlength, hdone, hfailed, hrunning⟩ := hlast.returned
    rw [← (hsound.inTurn_calls run.event).length_eq]
    exact ⟨hreturned, fun hopen => ⟨(hrunning hopen).2, (hlast.step_self hopen).2⟩, hdone,
      fun failure hfailure => ⟨hlength, hfailed failure hfailure⟩⟩
  · intro script moves i
    obtain ⟨recorded, hrequests, hrecords⟩ := (script.records_start i).follow moves
    exact ⟨recorded, hrequests, hrecords.store.heap_eq, hrecords.store.finalizers_eq,
      hrecords.lives⟩

private def early : ObjectRef := ⟨0, 16, "Object", none⟩

private def steady : ObjectRef := ⟨1, 32, "Object", none⟩

private def late : ObjectRef := ⟨2, 16, "Object", none⟩

private def failing : Finalizer where
  label := "failing"
  body := .mk [.mk false (.queue (.add "q" (.immediate (.integer 1))))]
    (some (.core .range "closed")) none .null

private def quiet : Finalizer where
  label := "quiet"
  body := .mk [.mk false (.queue (.add "q" (.immediate (.integer 2))))] none none .null

/-- An object with two finalizers dies, and its address passes to another one, whose finalizer is
defined and removed before anything is collected. -/
def reusedAddress : List (RegistrationEvent Finalizer) := [
  .allocate 16 "Object" none, .define 0 early failing, .define 0 early quiet,
  .allocate 32 "Object" none, .define 0 steady quiet, .die early,
  .allocate 16 "Object" none, .define 0 late quiet, .undefine late]

def reusedHistory : RegistrationRun Finalizer :=
  ({ space := { ids := {} } } : RegistrationRun Finalizer).along reusedAddress

def collectingMachine : Machine where
  world := {
    options := {}
    spaces := [reusedHistory.space]
    names := { objects := [("steady", steady), ("late", late)] } }
  executors := [⟨none, .perform (.call (.finalize (.collect none))),
    [.step { strict := false }, .session [] []]⟩]
  watched := []

private theorem agrees_collectingMachine :
    collectingMachine.world.Agrees collectingMachine.held 0 reusedHistory where
  finalizers_eq := rfl
  isAlive_eq := by decide +kernel

/-- An object gets a finalizer and is dropped, and there is a collection. -/
def droppedObject : Script where
  options := {}
  watched := []
  steps := [
    .mk false (.object (.new "a" "Object" none false)),
    .mk false (.space (.defineFinalizer none (.named "a") "quiet" quiet.body)),
    .mk false (.object (.drop "a")),
    .mk false (.call (.finalize (.collect none)))]

private theorem calls_reusedHistory :
    reusedHistory.calls .collect = [(24, failing), (24, quiet)] := by
  have hdue : reusedHistory.calls .collect =
      FinalizerTable.calls [⟨early, 24, [failing, quiet]⟩] := rfl
  rw [hdue]
  simp [FinalizerTable.calls]

theorem finalizers_called_once_reusedAddress :
    let m := collectingMachine
    let moves := List.replicate 8 (Move.step 0)
    let last := (m.step 0).follow moves
    last.returned? 0 3 = some (.ok (.report (.nat 2))) ∧
      (∃ w frame, m.Launches 0 3 w (failing.callWith 24) frame) ∧
      (∃ w frame, ((m.step 0).follow (moves.take 3)).Launches 0 3 w (quiet.callWith 24) frame) ∧
      (last.world.queue 0).items = [.integer 1, .integer 2] ∧
      (∀ r ∈ reusedHistory.due .collect, r.object ∈ reusedHistory.dead) ∧
      (reusedHistory.space.finalizers.undefine reusedHistory.isAlive steady).1 = 1 ∧
      ∃ recorded : List (RegistrationEvent Finalizer),
        recorded.filter (·.isRequest) = [.define 0 ⟨0, 0, "Object", none⟩ quiet, .collect] ∧
          (droppedObject.start.follow (List.replicate 10 (.step 0))).world.heap =
            (({} : RegistrationRun Finalizer).along recorded).heap := by
  intro m moves last
  obtain ⟨-, -, hevents, -, hundefine, hruns, hsessions⟩ := finalizers_called_once {} reusedAddress
  obtain ⟨e, he, hcontrol, hheight⟩ : ∃ e, m.executors[0]? = some e ∧
      e.control = .perform (.call (.finalize (.collect none))) ∧ e.stack.length = 2 :=
    ⟨_, rfl, rfl, rfl⟩
  obtain ⟨-, hfirst, hcollects⟩ := hruns m 0 e (.collect none) he hcontrol agrees_collectingMachine
  simp only [hheight] at hfirst hcollects
  -- The second finalizer is called when the first one has failed.
  let failed := (m.step 0).follow (moves.take 3)
  obtain ⟨-, hrunning, -⟩ := hcollects (moves.take 3) (by decide +kernel)
  obtain ⟨-, hlaunches⟩ := hrunning (Option.isNone_iff_eq_none.mp (by decide +kernel))
  have hhanded : (failed.returned? 0 4).any Outcome.hasReturned := by decide +kernel
  obtain ⟨outcome, hfailed, hreturned⟩ := (Option.any_eq_true _ _).mp hhanded
  have hsecond : (reusedHistory.calls .collect)[((m.step 0).log (Machine.blockOutcomes 0 3)
      (moves.take 3)).length + 1]? = some (24, quiet) := by
    have hnone : ((m.step 0).log (Machine.blockOutcomes 0 3) (moves.take 3)).length = 0 := by
      decide +kernel
    rw [hnone, calls_reusedHistory]
    rfl
  obtain ⟨recorded, hrequests, hheap, -⟩ :=
    hsessions droppedObject (List.replicate 10 (.step 0)) 0
  obtain ⟨-, -, hdone, -⟩ := hcollects moves (by decide +kernel)
  have hover : (last.returned? 0 3).any (·.isOk) := by decide +kernel
  obtain ⟨last', hlast, hok⟩ := (Option.any_eq_true _ _).mp hover
  cases last' with
  | error failure => cases hok
  | ok y =>
      obtain ⟨-, rfl⟩ := hdone y hlast
      have hnumber : (reusedHistory.due .collect).length = 2 := by decide +kernel
      refine ⟨hnumber ▸ hlast, ⟨_, _, hfirst 24 failing ?_⟩,
        ⟨_, _, hlaunches outcome 24 quiet hfailed hreturned hsecond⟩, by decide +kernel,
        (hevents .collect).2.2.2 (by simp), ?_, recorded, hrequests.trans rfl, hheap⟩
      · exact congrArg List.head? calls_reusedHistory
      · exact (hundefine steady (by decide +kernel)).1.trans (by decide +kernel)

end RubyRuntime.Session
