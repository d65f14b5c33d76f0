import RubyRuntime.Proofs.Session.Runs

/-!
# Signal credits

A ledger of a run counts the credits that signals and broadcasts have granted to a condition and the
waits that have taken one. The main result is that no credit is lost or taken twice: those granted
are those taken and those still pending, at every moment of every run. Mutual exclusion inside the
private critical section of the condition gives the rest: a wait leaves as woken or timed out only
while no credit is pending, and one that failed takes the pending credit with it.
-/
namespace RubyRuntime

namespace Condition

theorem signals_consume? {condition after : Condition} (h : condition.consume? = some after) :
    condition.signals = after.signals + 1 ∧ after.holder = condition.holder := by
  unfold consume? at h
  split at h
  · cases h
    exact ⟨by dsimp only; omega, rfl⟩
  · cases h

theorem signals_eq_zero {condition : Condition} (h : condition.consume? = none) :
    condition.signals = 0 := by
  unfold consume? at h
  split at h
  · cases h
  · omega

theorem signals_signal (condition : Condition) :
    condition.signal.signals = condition.signals + min 1 condition.waiters := by
  unfold signal
  split
  · next h => dsimp only; omega
  · next h => omega

theorem signals_broadcast (condition : Condition) :
    condition.broadcast.signals = condition.signals + condition.waiters := by
  unfold broadcast
  split
  · rfl
  · next h => omega

end Condition

def WaitPhase.isSignaled : WaitPhase → Bool
  | leaving _ (.ok .signaled) => true
  | _ => false

def WaitPhase.isFailed : WaitPhase → Bool
  | leaving _ (.error _) => true
  | _ => false

namespace ConditionWait.Steps

variable {α : Type} {now me : Nat} {wait : ConditionWait} {phase : WaitPhase} {s : Sync α}
  {after : WaitPhase × Sync α}

theorem holder (h : wait.Steps now me s phase after)
    (hinside : phase.isInside → (s.condition wait.condition).holder = some me)
    (hnext : after.1.isInside) : (after.2.condition wait.condition).holder = some me := by
  cases h with
  | stays houtside hreason => simp [houtside] at hnext
  | releases | wakes | expires | rechecks => exact hinside rfl
  | registers =>
      rw [Sync.condition_updateCondition_self]
      exact hinside rfl
  | takes hphase hconsume =>
      rw [Sync.condition_updateCondition_self, (Condition.signals_consume? hconsume).2]
      exact hinside (by rcases hphase with rfl | rfl <;> rfl)
  | enters | unparks | returns | fails =>
      rw [Sync.condition_updateCondition_self]
      rfl
  | parks | heeds | leaves | withdraws => cases hnext

theorem condition_of_held (h : wait.Steps now me s phase after) (houtside : phase.isInside = false)
    (hheld : (s.condition wait.condition).holder.isSome) (c : ConditionId) :
    after.2.condition c = s.condition c := by
  cases h with
  | stays => rfl
  | enters hfree | unparks hfree | returns hfree | fails hfree => simp [hfree] at hheld
  | takes hphase hconsume => rcases hphase with rfl | rfl <;> cases houtside
  | _ => cases houtside

/-- A step of a wait takes a credit exactly when the wait ends as signalled by it, or when it
deregisters after a failure and finds one. -/
theorem signals (h : wait.Steps now me s phase after) :
    (s.condition wait.condition).signals =
      (after.2.condition wait.condition).signals +
        ((if after.1.isSignaled then 1 else 0) +
          if phase.isFailed then min 1 (s.condition wait.condition).signals else 0) := by
  cases h with
  | stays houtside hreason => cases phase <;> first | rfl | cases houtside
  | takes hphase hconsume =>
      have hone := (Condition.signals_consume? hconsume).1
      have hfailed : phase.isFailed = false := by rcases hphase with rfl | rfl <;> rfl
      simp [Sync.condition_updateCondition_self, WaitPhase.isSignaled, hfailed, hone]
  | @withdraws holds e =>
      -- A failed wait takes a credit on its way out if it finds one.
      simp only [Sync.condition_updateCondition_self]
      cases hconsume : (s.condition wait.condition).consume? with
      | none =>
          have hnone := Condition.signals_eq_zero hconsume
          simp [Condition.deregister, Condition.exit, WaitPhase.isSignaled, WaitPhase.isFailed,
            hnone]
      | some condition =>
          have hone := (Condition.signals_consume? hconsume).1
          simp [Condition.deregister, Condition.exit, WaitPhase.isSignaled, WaitPhase.isFailed,
            hone]
  | releases | wakes | expires | rechecks => rfl
  | heeds =>
      simp only [Sync.condition_updateThread, Sync.condition_updateCondition_self]
      rfl
  | _ =>
      simp only [Sync.condition_updateCondition_self]
      rfl

theorem signals_eq_zero (h : wait.Steps now me s phase after) {holds : UInt32} {o : WaitOutcome}
    (hnext : after.1 = .leaving holds (.ok o)) (ho : o ≠ .signaled) :
    (after.2.condition wait.condition).signals = 0 := by
  cases h with
  | stays houtside hreason =>
      subst hnext
      cases houtside
  | takes hphase hconsume =>
      cases hnext
      exact absurd rfl ho
  | wakes hnone hflag => exact Condition.signals_eq_zero hnone
  | expires hnone hquiet hlate => exact Condition.signals_eq_zero hnone
  | _ => cases hnext

end ConditionWait.Steps

namespace Session

/-- What became of the credits of a condition: how many were granted, and how many waits took one,
as signalled or after a failure. -/
structure Ledger where
  granted : Nat := 0
  signaled : Nat := 0
  failed : Nat := 0

def MutexOp.grant? : MutexOp → Option (String × (Condition → Condition))
  | .signal cv => some (cv, Condition.signal)
  | .broadcast cv => some (cv, Condition.broadcast)
  | _ => none

namespace Machine

def control? (m : Machine) (me : Nat) : Option Control :=
  m.executors[me]?.map (·.control)

/-- The credits that the next step of executor `me` grants to a condition: one by a signal while
somebody waits, and one for each waiter by a broadcast. -/
def granted (c : ConditionId) (m : Machine) (me : Nat) : Nat :=
  let condition := m.world.sync.condition c
  match m.control? me with
  | some (.perform (.mutex (.signal cv))) =>
    if (m.world.conditionNamed cv).1 = c ∧ condition.holder = none then min 1 condition.waiters
    else 0
  | some (.perform (.mutex (.broadcast cv))) =>
    if (m.world.conditionNamed cv).1 = c ∧ condition.holder = none then condition.waiters else 0
  | _ => 0

def signaled (c : ConditionId) (m : Machine) (me : Nat) : Nat :=
  match m.control? me, (m.step me).control? me with
  | some (.condition wait _ _), some (.condition _ phase _) =>
    if wait.condition = c ∧ phase.isSignaled then 1 else 0
  | _, _ => 0

def failed (c : ConditionId) (m : Machine) (me : Nat) : Nat :=
  match m.control? me with
  | some (.condition wait phase _) =>
    if wait.condition = c ∧ phase.isFailed ∧
      ((m.step me).world.sync.condition c).signals < (m.world.sync.condition c).signals then 1
    else 0
  | _ => 0

def ledger (c : ConditionId) : Machine → List Move → Ledger
  | _, [] => {}
  | m, .step me :: moves =>
    let rest := (m.step me).ledger c moves
    { granted := m.granted c me + rest.granted
      signaled := m.signaled c me + rest.signaled
      failed := m.failed c me + rest.failed }
  | m, .tick millis :: moves => (m.tick millis).ledger c moves

variable {m : Machine} {me : Nat}

theorem control?_eq_some {control : Control} :
    m.control? me = some control ↔ ∃ e, m.executors[me]? = some e ∧ e.control = control := by
  simp [control?]

theorem control?_put {e : Executor} (he : m.executors[me]? = some e) (current : Option ThreadId)
    (task : Task) : (m.put me current task).control? me = some task.control := by
  simp [control?, executors_put he]

/-- The three ways in which a step can bear on conditions. -/
inductive ConditionStep (m : Machine) (me : Nat) : Prop where
  | waits (wait : ConditionWait) (phase : WaitPhase) (wakeAt wakeAt' : Option Nat)
    (hcontrol : m.control? me = some (.condition wait phase wakeAt))
    (hsync : (m.step me).world.sync = (wait.step m.world.clock me phase m.world.sync).2)
    (hnext : (m.step me).control? me =
      some (.condition wait (wait.step m.world.clock me phase m.world.sync).1 wakeAt'))
  | grants (op : MutexOp) (cv : String) (f : Condition → Condition)
    (hcontrol : m.control? me = some (.perform (.mutex op))) (hgrant : op.grant? = some (cv, f))
    (hfree : (m.world.sync.condition (m.world.conditionNamed cv).1).holder = none)
    (hcondition : ∀ c, (m.step me).world.sync.condition c =
      if (m.world.conditionNamed cv).1 = c then f (m.world.sync.condition c)
      else m.world.sync.condition c)
    (hnext : ∀ wait phase wakeAt, (m.step me).control? me ≠ some (.condition wait phase wakeAt))
  | none (hcondition : ∀ c, (m.step me).world.sync.condition c = m.world.sync.condition c)
    (houtside : ∀ wait phase wakeAt, m.control? me = some (.condition wait phase wakeAt) →
      phase.isInside = false)
    (hnext : ∀ wait phase wakeAt, (m.step me).control? me = some (.condition wait phase wakeAt) →
      phase.isInside = false)
    (hblocked : ∀ op cv f, m.control? me = some (.perform (.mutex op)) → op.grant? = some (cv, f) →
      (m.world.sync.condition (m.world.conditionNamed cv).1).holder ≠ Option.none)

private theorem conditionStep_begun {e : Executor} {wait : ConditionWait} {phase : WaitPhase}
    {wakeAt : Option Nat} {task : Task} {actor : Option ThreadId}
    (he : m.executors[me]? = some e) (hcontrol : e.control = .condition wait phase wakeAt)
    (houtside : phase.isInside = false) (hbegun : task.Begun m.world e.stack actor)
    (hstep : m.step me = m.put me e.current task) : ConditionStep m me := by
  have hcontrol? : m.control? me = some (.condition wait phase wakeAt) :=
    control?_eq_some.mpr ⟨e, he, hcontrol⟩
  refine .none ?_ ?_ ?_ ?_
  · rw [hstep]
    exact (hbegun.moves none).condition
  · intro wait' phase' wakeAt' h
    rw [hcontrol?] at h
    cases h
    exact houtside
  · intro wait' phase' wakeAt' h
    rw [hstep, control?_put he] at h
    exact hbegun.not_inside (Option.some.inj h)
  · intro op cv f h
    rw [hcontrol?] at h
    cases h

private theorem conditionStep_other {e : Executor} (he : m.executors[me]? = some e)
    (hwait : ∀ wait phase wakeAt, e.control ≠ .condition wait phase wakeAt)
    (hgrant : ∀ op, e.control = .perform (.mutex op) → op.grant? = none) : ConditionStep m me := by
  have hnowait : ∀ wait phase wakeAt, m.control? me ≠ some (.condition wait phase wakeAt) := by
    intro wait phase wakeAt h
    obtain ⟨e', he', hcontrol⟩ := control?_eq_some.mp h
    rw [he] at he'
    cases he'
    exact hwait _ _ _ hcontrol
  have hnogrant : ∀ op cv f, m.control? me = some (.perform (.mutex op)) →
      op.grant? = some (cv, f) →
      (m.world.sync.condition (m.world.conditionNamed cv).1).holder ≠ Option.none := by
    intro op cv f h hsome
    obtain ⟨e', he', hcontrol⟩ := control?_eq_some.mp h
    rw [he] at he'
    cases he'
    rw [hgrant op hcontrol] at hsome
    cases hsome
  rcases m.step_cases me with hsame | ⟨e₀, he₀, e', spawned, hadvance, hexecutors, -⟩
  · rw [← hsame] at hnowait
    exact .none (by rw [hsame]; exact fun _ => rfl) (fun _ _ _ h => by
      rw [← hsame] at h; exact absurd h (hnowait _ _ _)) (fun _ _ _ h => absurd h (hnowait _ _ _))
      hnogrant
  · rw [he] at he₀
    cases he₀
    rcases hadvance.condition_cases hwait with
      ⟨op, cv, f, hcontrol, hop, -, -⟩ | ⟨hcondition, hnext⟩
    · have hnone := hgrant op hcontrol
      rcases hop with ⟨rfl, -⟩ | ⟨rfl, -⟩ <;> cases hnone
    · refine .none hcondition (fun _ _ _ h => absurd h (hnowait _ _ _)) ?_ hnogrant
      intro wait phase wakeAt h
      apply hnext wait phase wakeAt
      have hme : me < m.executors.length := (List.getElem?_eq_some_iff.mp he).1
      simpa [control?, hexecutors, List.getElem?_append_left, hme] using h

private theorem conditionStep_grant {e : Executor} {op : MutexOp}
    {grant : String × (Condition → Condition)} (he : m.executors[me]? = some e)
    (hcontrol : e.control = .perform (.mutex op)) (hgrant : op.grant? = some grant) :
    ConditionStep m me := by
  obtain ⟨cv, f⟩ := grant
  have hcontrol? : m.control? me = some (.perform (.mutex op)) :=
    control?_eq_some.mpr ⟨e, he, hcontrol⟩
  have hwait : op.mustWait m.world =
      (m.world.sync.condition (m.world.conditionNamed cv).1).holder.isSome := by
    cases op <;> cases hgrant <;> rfl
  have hstart : op.start m.world e.stack = ((m.world.conditionNamed cv).2.updateSync
      (·.updateCondition (m.world.conditionNamed cv).1 f)).give e.stack .unit := by
    cases op <;> cases hgrant <;> rfl
  cases hholder : (m.world.sync.condition (m.world.conditionNamed cv).1).holder with
  | none =>
      have hstep : m.step me = m.put me e.current (op.start m.world e.stack) := by
        simp [step, he, hcontrol, perform, hwait, hholder]
      rw [hstart] at hstep
      refine .grants op cv f hcontrol? hgrant hholder ?_ ?_
      · intro c
        rw [hstep]
        simp only [put, World.give, World.updateSync, Sync.condition_updateCondition,
          (World.alike_conditionNamed m.world cv).condition c]
      · rw [hstep, control?_put he]
        simp [World.give]
  | some holder =>
      have hstep : m.step me = m := by
        simp [step, he, hcontrol, perform, hwait, hholder]
      refine .none (by simp [hstep]) (by simp [hcontrol?]) (by simp [hstep, hcontrol?]) ?_
      intro op' cv' f' hop' hgrant'
      rw [hcontrol?] at hop'
      cases hop'
      rw [hgrant] at hgrant'
      cases hgrant'
      simp [hholder]

theorem conditionStep (m : Machine) (me : Nat) : ConditionStep m me := by
  cases he : m.executors[me]? with
  | none =>
      have hstep : m.step me = m := by simp [step, he]
      have hcontrol : m.control? me = none := by simp [control?, he]
      exact .none (by simp [hstep]) (by simp [hcontrol]) (by simp [hstep, hcontrol])
        (by simp [hcontrol])
  | some e =>
      cases hcontrol : e.control with
      | condition wait phase wakeAt =>
          have hstep : m.step me =
              m.put me e.current (continueWait me wait phase m.world e.stack) := by
            simp [step, he, hcontrol]
          have hown : ∀ {wakeAt' : Option Nat},
              (continueWait me wait phase m.world e.stack).world.sync =
                (wait.step m.world.clock me phase m.world.sync).2 →
              (continueWait me wait phase m.world e.stack).control =
                .condition wait (wait.step m.world.clock me phase m.world.sync).1 wakeAt' →
              ConditionStep m me := by
            intro wakeAt' hsync hnext
            refine .waits wait phase wakeAt wakeAt' (control?_eq_some.mpr ⟨e, he, hcontrol⟩) ?_ ?_
            · rw [hstep]
              exact hsync
            · rw [hstep, control?_put he, hnext]
          cases phase with
          | polling holds =>
              have hbegun : (continueWait me wait (.polling holds) m.world e.stack).Begun m.world
                  e.stack none :=
                .launched ((World.launched_startPoll _ _ _).under rfl)
              exact conditionStep_begun he hcontrol rfl hbegun hstep
          | relocking holds result =>
              have hbegun : (continueWait me wait (.relocking holds result) m.world e.stack).Begun
                  m.world e.stack (some wait.thread) :=
                (World.begun_startRelock _ _ _ _ _).under rfl
              exact conditionStep_begun he hcontrol rfl hbegun hstep
          | _ => exact hown rfl rfl
      | perform op =>
          cases op with
          | mutex op =>
              cases hgrant : op.grant? with
              | none =>
                  refine conditionStep_other he (by simp [hcontrol]) ?_
                  intro op' hop'
                  rw [hcontrol] at hop'
                  cases hop'
                  exact hgrant
              | some grant => exact conditionStep_grant he hcontrol hgrant
          | _ => exact conditionStep_other he (by simp [hcontrol]) (by simp [hcontrol])
      | _ => exact conditionStep_other he (by simp [hcontrol]) (by simp [hcontrol])

theorem granted_eq_zero {c : ConditionId}
    (h : ∀ op cv f, m.control? me = some (.perform (.mutex op)) → op.grant? = some (cv, f) →
      (m.world.sync.condition (m.world.conditionNamed cv).1).holder ≠ none) :
    m.granted c me = 0 := by
  unfold granted
  dsimp only
  split
  · next cv hcontrol =>
    have hheld := h _ cv _ hcontrol rfl
    rw [if_neg]
    rintro ⟨rfl, hfree⟩
    exact hheld hfree
  · next cv hcontrol =>
    have hheld := h _ cv _ hcontrol rfl
    rw [if_neg]
    rintro ⟨rfl, hfree⟩
    exact hheld hfree
  · rfl

private theorem signals_step_of_wait {wait : ConditionWait} {phase : WaitPhase}
    {wakeAt wakeAt' : Option Nat} (c : ConditionId)
    (hcontrol : m.control? me = some (.condition wait phase wakeAt))
    (hsync : (m.step me).world.sync = (wait.step m.world.clock me phase m.world.sync).2)
    (hnext : (m.step me).control? me =
      some (.condition wait (wait.step m.world.clock me phase m.world.sync).1 wakeAt')) :
    (m.world.sync.condition c).signals =
      ((m.step me).world.sync.condition c).signals + (m.signaled c me + m.failed c me) := by
  have hbooks := (wait.steps m.world.clock me phase m.world.sync).signals
  simp only [signaled, failed, hcontrol, hnext, hsync]
  by_cases hc : wait.condition = c
  · subst hc
    simp only [true_and]
    by_cases hfailed : phase.isFailed
    · have hother : (wait.step m.world.clock me phase m.world.sync).1.isSignaled = false := by
        cases phase <;> first | rfl | cases hfailed
      rw [if_pos hfailed, hother] at hbooks
      simp only [hfailed, hother, true_and, Bool.false_eq_true, if_false] at hbooks ⊢
      split <;> omega
    · rw [if_neg hfailed] at hbooks
      simp only [hfailed, false_and, Bool.false_eq_true, if_false]
      omega
  · simp [hc, (wait.steps _ _ _ _).condition_of_ne hc]

theorem signals_step (m : Machine) (me : Nat) (c : ConditionId) :
    (m.world.sync.condition c).signals + m.granted c me =
      ((m.step me).world.sync.condition c).signals + (m.signaled c me + m.failed c me) := by
  cases m.conditionStep me with
  | waits wait phase wakeAt wakeAt' hcontrol hsync hnext =>
      have hgranted : m.granted c me = 0 := by simp [granted, hcontrol]
      rw [hgranted]
      exact signals_step_of_wait c hcontrol hsync hnext
  | grants op cv f hcontrol hgrant hfree hcondition hnext =>
      have hsignaled : m.signaled c me = 0 := by simp [signaled, hcontrol]
      have hfailed : m.failed c me = 0 := by simp [failed, hcontrol]
      rw [hcondition c, hsignaled, hfailed]
      cases op with
      | signal cv' =>
          cases hgrant
          by_cases hc : (m.world.conditionNamed cv).1 = c
          · subst hc
            simp [granted, hcontrol, hfree, Condition.signals_signal]
          · simp [granted, hcontrol, hc]
      | broadcast cv' =>
          cases hgrant
          by_cases hc : (m.world.conditionNamed cv).1 = c
          · subst hc
            simp [granted, hcontrol, hfree, Condition.signals_broadcast]
          · simp [granted, hcontrol, hc]
      | _ => cases hgrant
  | none hcondition houtside hnext hblocked =>
      have hsignaled : m.signaled c me = 0 := by
        unfold signaled
        split
        · next wait phase wakeAt wait' phase' wakeAt' hcontrol hcontrol' =>
          have hout := hnext _ _ _ hcontrol'
          rw [if_neg]
          rintro ⟨-, h⟩
          cases phase' <;> simp [WaitPhase.isInside, WaitPhase.isSignaled] at hout h
        · rfl
      have hfailed : m.failed c me = 0 := by
        unfold failed
        split
        · simp [hcondition c]
        · rfl
      rw [granted_eq_zero hblocked, hsignaled, hfailed, hcondition c]

theorem signals_follow (m : Machine) (moves : List Move) (c : ConditionId) :
    (m.world.sync.condition c).signals + (m.ledger c moves).granted =
      ((m.follow moves).world.sync.condition c).signals +
        ((m.ledger c moves).signaled + (m.ledger c moves).failed) := by
  induction moves generalizing m with
  | nil => rfl
  | cons move moves ih =>
      cases move with
      | step me =>
          have hstep := m.signals_step me c
          have hrest := ih (m.step me)
          simp only [ledger, follow_step]
          omega
      | tick millis => exact ih (m.tick millis)

/-- Whoever is inside the critical section of a condition is its holder, and whoever leaves it as
woken or timed out leaves no credit behind. -/
structure Exclusive (m : Machine) : Prop where
  holder : ∀ {i wait phase wakeAt}, m.control? i = some (.condition wait phase wakeAt) →
    phase.isInside → (m.world.sync.condition wait.condition).holder = some i
  spent : ∀ {i wait holds o wakeAt},
    m.control? i = some (.condition wait (.leaving holds (.ok o)) wakeAt) → o ≠ .signaled →
    (m.world.sync.condition wait.condition).signals = 0

theorem control?_of_step {i : Nat} {wait : ConditionWait} {phase : WaitPhase}
    {wakeAt : Option Nat} (hi : i ≠ me)
    (h : (m.step me).control? i = some (.condition wait phase wakeAt)) :
    m.control? i = some (.condition wait phase wakeAt) := by
  obtain ⟨x, hx, hcontrol⟩ := control?_eq_some.mp h
  rcases executors_step_cases hx with ⟨hold, -⟩ | ⟨e, rfl, -⟩ | hfresh
  · exact control?_eq_some.mpr ⟨x, hold, hcontrol⟩
  · exact absurd rfl hi
  · rcases hfresh.control with ⟨op, hop⟩ | ⟨result, hresult⟩
    · rw [hop] at hcontrol
      cases hcontrol
    · rw [hresult] at hcontrol
      cases hcontrol

theorem Exclusive.condition_step {i : Nat} {wait : ConditionWait} {phase : WaitPhase}
    {wakeAt : Option Nat} (h : m.Exclusive) (hi : i ≠ me)
    (hcontrol : m.control? i = some (.condition wait phase wakeAt)) (hinside : phase.isInside) :
    (m.step me).world.sync.condition wait.condition =
      m.world.sync.condition wait.condition := by
  have hholder := h.holder hcontrol hinside
  cases m.conditionStep me with
  | waits wait' phase' wakeAt' wakeAt'' hcontrol' hsync hnext =>
      rw [hsync]
      by_cases hc : wait'.condition = wait.condition
      · cases hinside' : phase'.isInside with
        | true =>
            have hholder' := h.holder hcontrol' hinside'
            rw [hc, hholder] at hholder'
            exact absurd (Option.some.inj hholder') hi
        | false =>
            apply (wait'.steps _ _ _ _).condition_of_held hinside'
            rw [hc, hholder]
            rfl
      · exact (wait'.steps _ _ _ _).condition_of_ne hc
  | grants op cv f hcontrol' hgrant hfree hcondition hnext =>
      rw [hcondition, if_neg]
      intro hc
      rw [hc, hholder] at hfree
      cases hfree
  | none hcondition houtside hnext hblocked => exact hcondition _

theorem Exclusive.step (h : m.Exclusive) (me : Nat) : (m.step me).Exclusive := by
  constructor
  · intro i wait phase wakeAt hcontrol hinside
    by_cases hi : i = me
    · subst hi
      cases m.conditionStep i with
      | waits wait' phase' wakeAt' wakeAt'' hcontrol' hsync hnext =>
          rw [hnext] at hcontrol
          cases hcontrol
          rw [hsync]
          exact (wait.steps _ i phase' _).holder (h.holder hcontrol') hinside
      | grants op cv f hcontrol' hgrant hfree hcondition hnext =>
          exact absurd hcontrol (hnext _ _ _)
      | none hcondition houtside hnext hblocked =>
          rw [hnext _ _ _ hcontrol] at hinside
          cases hinside
    · have hold := control?_of_step hi hcontrol
      rw [h.condition_step hi hold hinside]
      exact h.holder hold hinside
  · intro i wait holds o wakeAt hcontrol ho
    by_cases hi : i = me
    · subst hi
      cases m.conditionStep i with
      | waits wait' phase' wakeAt' wakeAt'' hcontrol' hsync hnext =>
          rw [hnext] at hcontrol
          have hphase := Option.some.inj hcontrol
          injection hphase with hwait hphase
          subst hwait
          rw [hsync]
          exact (wait'.steps _ i phase' _).signals_eq_zero hphase ho
      | grants op cv f hcontrol' hgrant hfree hcondition hnext =>
          exact absurd hcontrol (hnext _ _ _)
      | none hcondition houtside hnext hblocked =>
          exact absurd (hnext _ _ _ hcontrol) (by simp [WaitPhase.isInside])
    · have hold := control?_of_step hi hcontrol
      rw [h.condition_step hi hold rfl]
      exact h.spent hold ho

theorem Exclusive.follow (script : Script) (moves : List Move) :
    (script.start.follow moves).Exclusive := by
  refine follow_always (P := Exclusive) moves (fun m me h => h.step me) ?_ ?_
  · intro m millis h
    exact ⟨h.holder, h.spent⟩
  · -- At the start nobody waits.
    have hstart : ∀ {i wait phase wakeAt},
        script.start.control? i ≠ some (.condition wait phase wakeAt) := by
      intro i wait phase wakeAt h
      obtain ⟨x, hx, hcontrol⟩ := control?_eq_some.mp h
      rcases (Script.fresh_start hx).control with ⟨op, hop⟩ | ⟨result, hresult⟩
      · rw [hop] at hcontrol
        cases hcontrol
      · rw [hresult] at hcontrol
        cases hcontrol
    exact ⟨fun h => absurd h hstart, fun h => absurd h hstart⟩

end Machine

end Session

end RubyRuntime
