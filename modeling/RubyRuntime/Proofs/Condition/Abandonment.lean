import RubyRuntime.Proofs.Condition.Registration
import RubyRuntime.Proofs.Session.Postures

/-!
# Abandoned waits

A wait that polls runs the actions of its thread while it is registered. An error that comes out of
the poll brings it back, and it deregisters like any other wait; a panic goes past it, and it never
does. The main result is that a condition counts the waits that are registered and, for good, those
that were abandoned in this way. So the count is exact, and what is signalled to nobody is dropped,
as long as no panic has gone past a wait.
-/
namespace RubyRuntime.Session

def Frame.isPollOf (c : ConditionId) : Frame → Bool
  | .waitPolled wait _ => wait.condition == c
  | _ => false

def pollsOf (c : ConditionId) (stack : List Frame) : Nat :=
  stack.countP (Frame.isPollOf c)

theorem countP_absencesOn (c : ConditionId) (stack : List Frame) :
    (absencesOn stack).countP (Absence.isWait WaitPhase.isRegistered c) = pollsOf c stack := by
  rw [absencesOn, List.countP_filterMap, pollsOf]
  congr
  funext frame
  cases frame <;> first | rfl | simp [Frame.absence?, Absence.isWait, WaitPhase.isRegistered,
    Frame.isPollOf]

theorem pollsOf_waitPolled (c : ConditionId) (wait : ConditionWait) (holds : UInt32)
    (stack : List Frame) :
    pollsOf c (.waitPolled wait holds :: stack) =
      pollsOf c stack + (wait.condition == c).toNat := by
  cases hc : wait.condition == c <;> simp [pollsOf, Frame.isPollOf, hc]

theorem countP_waiting (c : ConditionId) (wait : ConditionWait) (phase : WaitPhase)
    (stack : List Frame) :
    (Absence.waiting wait phase :: absencesOn stack).countP
        (Absence.isWait WaitPhase.isRegistered c) =
      pollsOf c stack + (wait.condition == c && phase.isRegistered).toNat := by
  rw [List.countP_cons, countP_absencesOn]
  cases hphase : wait.condition == c && phase.isRegistered <;> simp [Absence.isWait, hphase]

theorem pollsOf_shape {stack stack' : List Frame} (c : ConditionId)
    (h : stack'.map Frame.shape = stack.map Frame.shape) : pollsOf c stack' = pollsOf c stack := by
  rw [← countP_absencesOn, absencesOn_of_shape h, countP_absencesOn]

theorem exists_innermost_poll {c : ConditionId} {stack : List Frame} (h : 0 < pollsOf c stack) :
    ∃ above wait holds below, stack = above ++ .waitPolled wait holds :: below ∧
      pollsOf c stack = pollsOf c (.waitPolled wait holds :: below) := by
  induction stack with
  | nil => cases h
  | cons frame stack ih =>
      by_cases hframe : frame.isPollOf c
      · cases frame with
        | waitPolled wait holds => exact ⟨[], wait, holds, stack, rfl, rfl⟩
        | _ => cases hframe
      · have hcount : pollsOf c (frame :: stack) = pollsOf c stack := by
          simp [pollsOf, hframe]
        rw [hcount] at h ⊢
        obtain ⟨above, wait, holds, below, hstack, hsame⟩ := ih h
        exact ⟨frame :: above, wait, holds, below, by rw [hstack]; rfl, hsame⟩

namespace Machine

variable {m : Machine} {me : Nat} {e e' : Executor} {c : ConditionId}

def abandons? (m : Machine) (me : Nat) : Option ConditionWait :=
  match m.executors[me]? with
  | some ⟨_, .give (.error (.panic _)), .waitPolled wait _ :: _⟩ => some wait
  | _ => none

/-- The waits on a condition, one or none, that a panic goes past in the next step of executor
`me`. -/
def abandoned (c : ConditionId) (m : Machine) (me : Nat) : List ConditionWait :=
  (m.abandons? me).toList.filter (·.condition == c)

private theorem abandoned_eq_nil (he : m.executors[me]? = some e)
    (h : ∀ outcome wait holds base, e.control = .give outcome →
      e.stack ≠ .waitPolled wait holds :: base) : m.abandoned c me = [] := by
  obtain ⟨current, control, stack⟩ := e
  unfold abandoned abandons?
  rw [he]
  split
  · next heq =>
    cases heq
    exact absurd rfl (h _ _ _ _ rfl)
  · rfl

private theorem waits_of_condition {wait : ConditionWait} {phase : WaitPhase}
    {wakeAt : Option Nat} (he : m.executors[me]? = some e)
    (hcontrol : e.control = .condition wait phase wakeAt)
    (he' : (m.step me).executors[me]? = some e') :
    e'.waits WaitPhase.isRegistered c + (m.deregisters c me).toNat =
      e.waits WaitPhase.isRegistered c + (m.registers c me).toNat := by
  have hcontrol? : m.control? me = some (.condition wait phase wakeAt) :=
    control?_eq_some.mpr ⟨e, he, hcontrol⟩
  have hstep : m.step me = m.put me e.current (continueWait me wait phase m.world e.stack) := by
    simp [step, he, hcontrol]
  rw [hstep, executors_put he] at he'
  cases he'
  have hbefore : e.waits WaitPhase.isRegistered c =
      pollsOf c e.stack + (wait.condition == c && phase.isRegistered).toNat := by
    rw [← countP_waiting, Executor.waits, Executor.absences, hcontrol]
    rfl
  by_cases hown : phase.isOwn
  · have hafter : (continueWait me wait phase m.world e.stack).absences =
        .waiting wait (wait.step m.world.clock me phase m.world.sync).1 :: absencesOn e.stack := by
      cases phase <;> first | rfl | cases hown
    have hphases := (wait.steps m.world.clock me phase m.world.sync).isRegistered
    change ((continueWait me wait phase m.world e.stack).absences).countP _ + _ = _
    rw [hafter, countP_waiting, hbefore]
    simp only [registers, deregisters, hcontrol?]
    cases wait.condition == c with
    | true =>
        simp only [Bool.true_and]
        omega
    | false => rfl
  · have hnone : m.registers c me = false ∧ m.deregisters c me = false := by
      cases phase <;> simp_all [registers, deregisters, WaitPhase.isOwn, WaitPhase.isRegistering,
        WaitPhase.isLeaving]
    have hafter : ((continueWait me wait phase m.world e.stack).absences).countP
        (Absence.isWait WaitPhase.isRegistered c) =
          pollsOf c e.stack + (wait.condition == c && phase.isRegistered).toNat := by
      cases phase with
      | polling holds =>
          rw [continueWait, World.absences_startPoll, countP_absencesOn, pollsOf_waitPolled]
          simp [WaitPhase.isRegistered]
      | relocking holds result =>
          rw [continueWait, World.startRelock]
          rcases m.world.absences_startAcquire (.waitOver result :: e.stack) wait.thread wait.lock
            (.relocking wait.thread wait.lock holds none) with hnew | hsame
          · simp [hnew, countP_absencesOn, pollsOf, Frame.isPollOf, WaitPhase.isRegistered]
          · simp [hsame, countP_absencesOn, pollsOf, Frame.isPollOf, WaitPhase.isRegistered]
      | _ => exact absurd rfl hown
    rw [hbefore, hnone.1, hnone.2]
    exact congrArg (· + 0) hafter

private theorem waits_of_polled {outcome : Outcome} {wait : ConditionWait} {holds : UInt32}
    {base : List Frame} (he : m.executors[me]? = some e) (hposed : e.Poised)
    (hcontrol : e.control = .give outcome) (hstack : e.stack = .waitPolled wait holds :: base)
    (he' : (m.step me).executors[me]? = some e') :
    e'.waits WaitPhase.isRegistered c + (m.abandoned c me).length =
      e.waits WaitPhase.isRegistered c := by
  have hbefore : e.waits WaitPhase.isRegistered c =
      pollsOf c base + (wait.condition == c).toNat := by
    rw [Executor.waits, Executor.absences, hcontrol, hstack]
    change (absencesOn (.waitPolled wait holds :: base)).countP _ = _
    rw [countP_absencesOn, pollsOf_waitPolled]
  have hreturns : ∀ failure, (Absence.waiting wait (.returning holds failure) ::
      absencesOn base).countP (Absence.isWait WaitPhase.isRegistered c) =
        pollsOf c base + (wait.condition == c).toNat := by
    intro failure
    simp [countP_waiting, WaitPhase.isRegistered]
  have hposed' := hposed.control
  rw [hcontrol, hstack] at hposed'
  rw [step_give he hcontrol hstack, executors_put he] at he'
  cases he'
  obtain ⟨current, control, stack⟩ := e
  cases hcontrol
  cases hstack
  rw [hbefore]
  rcases outcome with (err | _ | _ | text) | y
  · rw [← hreturns (some err)]
    simp [abandoned, abandons?, he]
    rfl
  · obtain ⟨running, rest, htop | htop⟩ := hposed' rfl <;> cases htop
  · obtain ⟨running, rest, htop | htop⟩ := hposed' rfl <;> cases htop
  · change (absencesOn base).countP _ + _ = _
    rw [countP_absencesOn]
    cases hc : wait.condition == c <;> simp [abandoned, abandons?, he, hc]
  · rw [← hreturns none]
    simp [abandoned, abandons?, he]
    rfl

private theorem waits_of_aside (he : m.executors[me]? = some e) (hposed : e.Poised)
    (hwait : ∀ wait phase wakeAt, e.control ≠ .condition wait phase wakeAt)
    (hgive : ∀ outcome wait holds base, e.control = .give outcome →
      e.stack ≠ .waitPolled wait holds :: base)
    (he' : (m.step me).executors[me]? = some e') :
    e'.waits WaitPhase.isRegistered c = e.waits WaitPhase.isRegistered c := by
  have hbefore : e.waits WaitPhase.isRegistered c = pollsOf c e.stack := by
    have habsences : e.absences = absencesOn e.stack := by
      rw [Executor.absences]
      cases hcontrol : e.control <;> first | rfl | exact absurd hcontrol (hwait _ _ _)
    rw [Executor.waits, habsences, countP_absencesOn]
  have hle : e'.waits WaitPhase.isRegistered c ≤ e.waits WaitPhase.isRegistered c := by
    have hstep := absenceStep he he'
    rw [Executor.waits]
    generalize e'.absences = absences at hstep ⊢
    cases hstep with
    | waits wait phase wakeAt hcontrol hown hsync => exact absurd hcontrol (hwait _ _ _)
    | turns hidle hturns => exact hturns.registered_le c
  apply Nat.le_antisymm hle
  rw [hbefore]
  by_cases hpolls : 0 < pollsOf c e.stack
  · obtain ⟨above, wait, holds, below, hstack, hcount⟩ := exists_innermost_poll hpolls
    have hstanding := hposed.standing
    rw [hstack] at hstanding
    have habove : Above (.waitPolled wait holds) below e.stack :=
      ⟨above, below, hstack, rfl, hstanding.isInner⟩
    obtain ⟨next, hnext, above', below', hstack', hbelow', -⟩ := above_step he rfl habove (by
      intro outcome hcontrol htop
      have hframes : e.stack = (above ++ [.waitPolled wait holds]) ++ below := by simp [hstack]
      rw [above_eq hframes rfl] at htop
      have hnone : above = [] := by simpa using htop
      subst hnone
      exact hgive outcome wait holds below hcontrol hstack)
    obtain rfl : next = e' := Option.some.inj (hnext.symm.trans he')
    calc pollsOf c e.stack = pollsOf c (.waitPolled wait holds :: below') := by
          rw [hcount, pollsOf_waitPolled, pollsOf_waitPolled, pollsOf_shape c hbelow']
      _ ≤ pollsOf c next.stack := by
          rw [hstack', pollsOf, pollsOf, List.countP_append]
          exact Nat.le_add_left _ _
      _ ≤ next.waits WaitPhase.isRegistered c := by
          rw [Executor.waits, Executor.absences, List.countP_append, countP_absencesOn]
          exact Nat.le_add_left _ _
  · omega

/-- Every wait that registers deregisters or is abandoned by a panic. -/
theorem Poised.registered_step (h : m.Poised) (me : Nat) (c : ConditionId) :
    (m.step me).waits WaitPhase.isRegistered c + (m.abandoned c me).length +
        (m.deregisters c me).toNat =
      m.waits WaitPhase.isRegistered c + (m.registers c me).toNat := by
  cases he : m.executors[me]? with
  | none => simp [Machine.step, he, abandoned, abandons?, registers, deregisters, control?]
  | some e =>
      obtain ⟨e', he'⟩ : ∃ e', (m.step me).executors[me]? = some e' := exists_executor_step he
      have hcount := waits_step WaitPhase.isRegistered c he he'
      by_cases hwait : ∃ wait phase wakeAt, e.control = .condition wait phase wakeAt
      · obtain ⟨wait, phase, wakeAt, hcontrol⟩ := hwait
        have hnone : m.abandoned c me = [] := by
          apply abandoned_eq_nil he
          intro outcome _ _ _ hgive
          rw [hcontrol] at hgive
          cases hgive
        have hself := waits_of_condition (c := c) he hcontrol he'
        rw [hnone, List.length_nil]
        omega
      · have hother : ∀ wait phase wakeAt, e.control ≠ .condition wait phase wakeAt :=
          fun wait phase wakeAt h => hwait ⟨wait, phase, wakeAt, h⟩
        have hidle : m.registers c me = false ∧ m.deregisters c me = false := by
          have hcontrol? : m.control? me = some e.control := by simp [control?, he]
          simp only [registers, deregisters, hcontrol?]
          cases hcontrol : e.control <;>
            first | exact ⟨rfl, rfl⟩ | exact absurd hcontrol (hother _ _ _)
        rw [hidle.1, hidle.2]
        by_cases hpolled : ∃ outcome wait holds base, e.control = .give outcome ∧
            e.stack = .waitPolled wait holds :: base
        · obtain ⟨outcome, wait, holds, base, hcontrol, hstack⟩ := hpolled
          have hself := waits_of_polled (c := c) he (h me e he) hcontrol hstack he'
          simp only [Bool.toNat_false]
          omega
        · have haside : ∀ outcome wait holds base, e.control = .give outcome →
              e.stack ≠ .waitPolled wait holds :: base :=
            fun outcome wait holds base hc hs => hpolled ⟨outcome, wait, holds, base, hc, hs⟩
          have hnone : m.abandoned c me = [] := abandoned_eq_nil he haside
          have hself := waits_of_aside (c := c) he (h me e he) hother haside he'
          simp only [hnone, List.length_nil, Bool.toNat_false]
          omega

theorem waiters_follow {lost : Nat} (hposed : m.Poised)
    (h : (m.world.sync.condition c).waiters = m.waits WaitPhase.isRegistered c + lost)
    (moves : List Move) :
    ((m.follow moves).world.sync.condition c).waiters =
      (m.follow moves).waits WaitPhase.isRegistered c +
        (lost + (m.log (Machine.abandoned c) moves).length) := by
  induction moves generalizing m lost with
  | nil => exact h
  | cons move moves ih =>
      cases move with
      | tick millis => exact ih (m := m.tick millis) hposed h
      | step me =>
          have hcount := hposed.registered_step me c
          have hwaiters := m.waiters_step me c
          have hnext : ((m.step me).world.sync.condition c).waiters =
              (m.step me).waits WaitPhase.isRegistered c +
                (lost + (m.abandoned c me).length) := by
            omega
          have hrest := ih (hposed.step me) hnext
          rw [follow_step, log, List.length_append]
          omega

theorem condition_step_of_no_waiters {op : Op} (hcontrol : m.control? me = some (.perform op))
    (hwaiters : (m.world.sync.condition c).waiters = 0) :
    (m.step me).world.sync.condition c = m.world.sync.condition c := by
  cases m.conditionStep me with
  | waits wait phase wakeAt wakeAt' hwait hsync hnext =>
      rw [hcontrol] at hwait
      cases hwait
  | grants op cv f hcontrol hgrant hfree hcondition hnext =>
      have hf : f (m.world.sync.condition c) = m.world.sync.condition c := by
        cases op <;> cases hgrant <;> simp [Condition.signal, Condition.broadcast, hwaiters]
      rw [hcondition c, hf, ite_self]
  | none hcondition houtside hnext hblocked => exact hcondition c

end Machine

/-- A condition counts the waits that are registered and those that a panic has gone past, and the
latter for good. So when no wait is registered, a signal or a broadcast that comes inside is dropped
if no panic has gone past a wait, and grants credits to nobody if one has. -/
theorem waiters_registered_or_abandoned (script : Script) (moves : List Move) (c : ConditionId) :
    let m := script.start.follow moves
    let condition := m.world.sync.condition c
    let lost := script.start.log (Machine.abandoned c) moves
    condition.waiters = m.waits WaitPhase.isRegistered c + lost.length ∧
      (∀ later, lost.length ≤ ((m.follow later).world.sync.condition c).waiters) ∧
      (m.waits WaitPhase.isRegistered c = 0 → ∀ i op cv f,
        m.control? i = some (.perform (.mutex op)) → op.grant? = some (cv, f) →
        (m.world.conditionNamed cv).1 = c →
        let after := (m.step i).world.sync.condition c
        if condition.holder = none then
          (lost = [] → after = condition) ∧
            (lost ≠ [] → 0 < m.granted c i ∧ after.signals = condition.signals + m.granted c i)
        else m.step i = m) := by
  intro m condition lost
  have hposed : m.Poised := .follow script moves
  have hstart : (script.start.world.sync.condition c).waiters =
      script.start.waits WaitPhase.isRegistered c + 0 := by
    have hwaits : script.start.waits WaitPhase.isRegistered c ≤
        (script.start.world.sync.condition c).waiters := Machine.Registered.follow script [] c
    have hcondition : script.start.world.sync.condition c = ({} : Sync Action).condition c :=
      (script.alike_start.condition c)
    rw [hcondition] at hwaits ⊢
    exact (Nat.eq_zero_of_le_zero hwaits).symm
  have hcount : condition.waiters = m.waits WaitPhase.isRegistered c + lost.length := by
    have hfollow := Machine.waiters_follow (c := c) (Machine.Poised.follow script []) hstart moves
    rwa [Nat.zero_add] at hfollow
  refine ⟨hcount, fun later => ?_, ?_⟩
  · rw [Machine.waiters_follow hposed hcount later]
    omega
  · intro hnobody i op cv f hcontrol hgrant hc after
    rw [hnobody, Nat.zero_add] at hcount
    split
    · next hfree =>
      refine ⟨fun hnone => ?_, fun hsome => ?_⟩
      · apply Machine.condition_step_of_no_waiters hcontrol
        rw [← List.length_eq_zero_iff] at hnone
        exact hcount.trans hnone
      · apply Machine.granted_pos hcontrol hgrant hc hfree
        rw [← List.length_pos_iff, ← hcount] at hsome
        exact hsome
    · next hheld =>
      subst hc
      exact Machine.step_of_held hcontrol hgrant hheld

/-- A thread that waits on a condition is given an action that panics. When it is back, the
condition is signalled. -/
def panickingWait : Script where
  options := {}
  watched := []
  steps := [.mk false (.call (.lock "a" "m")),
    .mk false (.thread (.submit "a" "boom" (.mk [] none (some "x") .null))),
    .mk false (.call (.wait "a" "m" "c" .forever)),
    .mk false (.mutex (.conditionInfo "c")),
    .mk false (.mutex (.signal "c"))]

def panickedMoves : List Move :=
  List.replicate 24 (.step 0)

theorem waiters_registered_or_abandoned_panickingWait :
    let m := panickingWait.start.follow panickedMoves
    let lost := panickingWait.start.log (Machine.abandoned 0) panickedMoves
    m.waits WaitPhase.isRegistered 0 = 0 ∧ lost.length = 1 ∧
      (m.world.sync.condition 0).waiters = 1 ∧ 0 < m.granted 0 0 ∧
      ((m.step 0).world.sync.condition 0).signals =
        (m.world.sync.condition 0).signals + m.granted 0 0 := by
  intro m lost
  have hnobody : m.waits WaitPhase.isRegistered 0 = 0 := by decide +kernel
  have hlost : lost.length = 1 := by decide +kernel
  have hfree : (m.world.sync.condition 0).holder = none := by decide +kernel
  have hsome : lost ≠ [] := by
    rw [← List.length_pos_iff, hlost]
    exact Nat.one_pos
  obtain ⟨hcount, -, hgrants⟩ := waiters_registered_or_abandoned panickingWait panickedMoves 0
  have hgranted := hgrants hnobody 0 (.signal "c") "c" _ rfl rfl (by decide +kernel)
  rw [if_pos hfree] at hgranted
  refine ⟨hnobody, hlost, ?_, hgranted.2 hsome⟩
  rw [hcount, hnobody, hlost]

/-- Nobody is left in a wait, but the condition still counts the wait that panicked, and keeps a
credit for it. -/
theorem panickingWait_leaves_waiter :
    let m := panickingWait.start.follow panickedMoves
    (∀ e ∈ m.executors, e.absences.length = 0) ∧ (m.world.sync.condition 0).waiters = 1 ∧
      ((m.step 0).world.sync.condition 0).signals = 1 := by
  intro m
  have hnobody : ∀ e ∈ m.executors, e.absences.length = 0 := by decide +kernel
  have hwaiters : (m.world.sync.condition 0).waiters = 1 := by decide +kernel
  have hsignals : ((m.step 0).world.sync.condition 0).signals = 1 := by decide +kernel
  exact ⟨hnobody, hwaiters, hsignals⟩

end RubyRuntime.Session
