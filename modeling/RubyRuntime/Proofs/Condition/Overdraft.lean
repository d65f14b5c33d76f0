import RubyRuntime.Proofs.Condition.Registration

/-!
# Stale credits

Credits are granted by counting waiters, not by naming them. A signal that comes before the waiters
of earlier signals have left can therefore grant more credits than there are waiters, an overdraft,
and so can a broadcast. The main result is that overdrafts are what leaves a credit behind: in a run
without one, no credit is pending while nobody is registered, and no wait takes a credit that was
granted before; after an overdraft, a credit is left when the last of the waiters has gone.
-/
namespace RubyRuntime.Session

namespace Machine

variable {m : Machine} {me : Nat} {c : ConditionId}

/-- Whether the next step of executor `me` grants credits to a condition and leaves it with more of
them than it has waiters. -/
def overdraws (c : ConditionId) (m : Machine) (me : Nat) : Bool :=
  let condition := m.world.sync.condition c
  0 < m.granted c me && condition.waiters < condition.signals + m.granted c me

def departs (c : ConditionId) (m : Machine) (i : Nat) : Bool :=
  match m.control? i with
  | some (.condition wait phase _) => wait.condition == c && phase.isSignaled
  | _ => false

inductive CountStep (c : ConditionId) (m : Machine) (me : Nat) : Prop where
  | grants (hbefore : m.departs c me = false) (hafter : (m.step me).departs c me = false)
    (hwaiters : ((m.step me).world.sync.condition c).waiters =
      (m.world.sync.condition c).waiters)
    (hsignals : ((m.step me).world.sync.condition c).signals =
      (m.world.sync.condition c).signals + m.granted c me)
  | registers (hregisters : m.registers c me) (hafter : (m.step me).departs c me = false)
    (hwaiters : ((m.step me).world.sync.condition c).waiters =
      (m.world.sync.condition c).waiters + 1)
    (hsignals : ((m.step me).world.sync.condition c).signals =
      (m.world.sync.condition c).signals)
  | takes (hbefore : m.departs c me = false) (hafter : (m.step me).departs c me)
    (hwaiters : ((m.step me).world.sync.condition c).waiters =
      (m.world.sync.condition c).waiters)
    (hsignals : (m.world.sync.condition c).signals =
      ((m.step me).world.sync.condition c).signals + 1)
  | leaves (wait : ConditionWait) (holds : UInt32) (result : Except Error WaitOutcome)
    (wakeAt : Option Nat)
    (hcontrol : m.control? me = some (.condition wait (.leaving holds result) wakeAt))
    (hc : wait.condition = c) (hafter : (m.step me).departs c me = false)
    (hwaiters : ((m.step me).world.sync.condition c).waiters =
      (m.world.sync.condition c).waiters - 1)
    (hsignals : ((m.step me).world.sync.condition c).signals =
      (m.world.sync.condition c).signals - (WaitPhase.leaving holds result).isFailed.toNat)

private theorem countStep_of_wait {wait : ConditionWait} {phase : WaitPhase}
    {wakeAt wakeAt' : Option Nat}
    (hcontrol : m.control? me = some (.condition wait phase wakeAt))
    (hsync : (m.step me).world.sync = (wait.step m.world.clock me phase m.world.sync).2)
    (hnext : (m.step me).control? me =
      some (.condition wait (wait.step m.world.clock me phase m.world.sync).1 wakeAt')) :
    CountStep wait.condition m me := by
  have hsignals := (wait.steps m.world.clock me phase m.world.sync).signals
  have hwaiters := (wait.steps m.world.clock me phase m.world.sync).waiters
  have hgranted : m.granted wait.condition me = 0 := by simp [granted, hcontrol]
  have hbefore : m.departs wait.condition me = phase.isSignaled := by simp [departs, hcontrol]
  have hafter : (m.step me).departs wait.condition me =
      (wait.step m.world.clock me phase m.world.sync).1.isSignaled := by simp [departs, hnext]
  rw [← hsync] at hsignals hwaiters
  have hother : phase.isRegistering = false → phase.isLeaving = false →
      CountStep wait.condition m me := by
    intro hregistering hleaving
    have hfailed : phase.isFailed = false := by cases phase <;> first | rfl | cases hleaving
    have hstaying : phase.isSignaled = false := by cases phase <;> first | rfl | cases hleaving
    rw [hregistering, hleaving] at hwaiters
    rw [hfailed, ← hafter] at hsignals
    cases hdeparts : (m.step me).departs wait.condition me with
    | true =>
        rw [hdeparts] at hsignals
        exact .takes (hbefore.trans hstaying) hdeparts hwaiters hsignals
    | false =>
        rw [hdeparts] at hsignals
        refine .grants (hbefore.trans hstaying) hdeparts hwaiters ?_
        rw [hgranted]
        exact hsignals.symm
  cases phase with
  | registering holds =>
      refine .registers ?_ hafter hwaiters hsignals.symm
      simp [Machine.registers, hcontrol, WaitPhase.isRegistering]
  | leaving holds result =>
      refine .leaves wait holds result wakeAt hcontrol rfl hafter hwaiters ?_
      cases result with
      | ok o => exact hsignals.symm
      | error e =>
          simp only [WaitPhase.isFailed, WaitPhase.isSignaled, ConditionWait.step,
            Bool.false_eq_true, if_true, if_false, Bool.toNat_true] at hsignals ⊢
          omega
  | _ => exact hother rfl rfl

private theorem exists_inside_of_departs {i : Nat} (h : m.departs c i) :
    ∃ wait phase wakeAt, m.control? i = some (.condition wait phase wakeAt) ∧
      wait.condition = c ∧ phase.isInside := by
  unfold departs at h
  split at h
  · next wait phase wakeAt hcontrol =>
    simp only [Bool.and_eq_true, beq_iff_eq] at h
    refine ⟨wait, phase, wakeAt, hcontrol, h.1, ?_⟩
    cases phase <;> first | rfl | cases h.2
  · cases h

theorem countStep (m : Machine) (me : Nat) (c : ConditionId) : CountStep c m me := by
  cases m.conditionStep me with
  | waits wait phase wakeAt wakeAt' hcontrol hsync hnext =>
      by_cases hc : wait.condition = c
      · subst hc
        exact countStep_of_wait hcontrol hsync hnext
      · have hsame := (wait.steps m.world.clock me phase m.world.sync).condition_of_ne hc
        rw [← hsync] at hsame
        have hne : (wait.condition == c) = false := beq_eq_false_iff_ne.mpr hc
        refine .grants ?_ ?_ (by rw [hsame]) ?_
        · simp [departs, hcontrol, hne]
        · simp [departs, hnext, hne]
        · simp [hsame, granted, hcontrol]
  | grants op cv f hcontrol hgrant hfree hcondition hnext =>
      have hsignals := m.signals_step me c
      have hwaiters := m.waiters_step me c
      simp only [signaled, failed, registers, deregisters, hcontrol] at hsignals hwaiters
      refine .grants (by simp [departs, hcontrol]) ?_ hwaiters hsignals.symm
      unfold departs
      split
      · next wait phase wakeAt hcontrol' => exact absurd hcontrol' (hnext _ _ _)
      · rfl
  | none hcondition houtside hnext hblocked =>
      have houtside' : ∀ {m : Machine}, (∀ wait phase wakeAt, m.control? me =
          some (.condition wait phase wakeAt) → phase.isInside = false) →
          m.departs c me = false := by
        intro m hout
        rw [Bool.eq_false_iff]
        intro hdeparts
        obtain ⟨wait, phase, wakeAt, hcontrol, -, hinside⟩ := exists_inside_of_departs hdeparts
        simp [hout wait phase wakeAt hcontrol] at hinside
      refine .grants (houtside' houtside) (houtside' hnext) (by rw [hcondition c]) ?_
      rw [granted_eq_zero hblocked, hcondition c]
      rfl

theorem Exclusive.step_of_departs {i : Nat} (h : m.Exclusive) (hi : i ≠ me)
    (hdeparts : m.departs c i) :
    (m.step me).world.sync.condition c = m.world.sync.condition c := by
  obtain ⟨wait, phase, wakeAt, hcontrol, rfl, hinside⟩ := exists_inside_of_departs hdeparts
  exact h.condition_step hi hcontrol hinside

theorem departs_step_of_ne {i : Nat} (hi : i ≠ me) :
    (m.step me).departs c i = m.departs c i := by
  rw [Bool.eq_iff_iff]
  unfold departs
  constructor
  · intro h
    split at h
    · next wait phase wakeAt hcontrol =>
      rw [control?_of_step hi hcontrol]
      exact h
    · cases h
  · intro h
    split at h
    · next wait phase wakeAt hcontrol =>
      obtain ⟨e, he, hphase⟩ := control?_eq_some.mp hcontrol
      have hkept : (m.step me).control? i = some (.condition wait phase wakeAt) :=
        control?_eq_some.mpr ⟨e, executors_step_of_ne hi he, hphase⟩
      rw [hkept]
      exact h
    · cases h

/-- The credits of a condition are covered by its waiters, and those who have taken one and not left
are not needed for that. -/
structure Covered (c : ConditionId) (m : Machine) : Prop where
  signals : (m.world.sync.condition c).signals ≤ (m.world.sync.condition c).waiters
  departing : ∀ i, m.departs c i →
    (m.world.sync.condition c).signals < (m.world.sync.condition c).waiters

theorem Covered.step (h : m.Covered c) (hexclusive : m.Exclusive)
    (hsolvent : m.overdraws c me = false) : (m.step me).Covered c := by
  have hothers : ∀ i, i ≠ me → (m.step me).departs c i →
      ((m.step me).world.sync.condition c).signals <
        ((m.step me).world.sync.condition c).waiters := by
    intro i hi hdeparts
    rw [departs_step_of_ne hi] at hdeparts
    rw [hexclusive.step_of_departs hi hdeparts]
    exact h.departing i hdeparts
  have hdeparting : ((m.step me).departs c me →
      ((m.step me).world.sync.condition c).signals <
        ((m.step me).world.sync.condition c).waiters) → ∀ i, (m.step me).departs c i →
      ((m.step me).world.sync.condition c).signals <
        ((m.step me).world.sync.condition c).waiters := by
    intro hme i hdeparts
    by_cases hi : i = me
    · exact hme (hi ▸ hdeparts)
    · exact hothers i hi hdeparts
  have hcovered := h.signals
  cases m.countStep me c with
  | grants hbefore hafter hwaiters hsignals =>
      refine ⟨?_, hdeparting (by simp [hafter])⟩
      simp only [overdraws, Bool.and_eq_false_iff, decide_eq_false_iff_not] at hsolvent
      omega
  | registers hregisters hafter hwaiters hsignals =>
      exact ⟨by omega, hdeparting (by simp [hafter])⟩
  | takes hbefore hafter hwaiters hsignals =>
      exact ⟨by omega, hdeparting fun _ => by omega⟩
  | leaves wait holds result wakeAt hcontrol hc hafter hwaiters hsignals =>
      refine ⟨?_, hdeparting (by simp [hafter])⟩
      cases result with
      | error e =>
          simp only [WaitPhase.isFailed, Bool.toNat_true] at hsignals
          omega
      | ok o =>
          simp only [WaitPhase.isFailed, Bool.toNat_false] at hsignals
          by_cases ho : o = .signaled
          · have hlt := h.departing me (by simp [departs, hcontrol, hc, ho, WaitPhase.isSignaled])
            omega
          · have hspent := hexclusive.spent hcontrol ho
            rw [hc] at hspent
            omega

theorem covered_follow (script : Script) {moves : List Move}
    (hsolvent : script.start.along (fun m me => !m.overdraws c me) moves) :
    (script.start.follow moves).Covered c ∧ (script.start.follow moves).Exclusive := by
  refine follow_keeps (P := fun m => m.Covered c ∧ m.Exclusive) ?_ ?_ hsolvent
    ⟨?_, .follow script []⟩
  · intro m me hsolvent ⟨hcovered, hexclusive⟩
    exact ⟨hcovered.step hexclusive (by simpa using hsolvent), hexclusive.step me⟩
  · intro m millis ⟨hcovered, hexclusive⟩
    exact ⟨⟨hcovered.signals, hcovered.departing⟩, ⟨hexclusive.holder, hexclusive.spent⟩⟩
  · have hstart : script.start.world.sync.condition c = {} := script.alike_start.condition c
    refine ⟨Nat.le_of_eq (by rw [hstart]), fun i hdeparts => ?_⟩
    -- Nobody is inside at the start.
    obtain ⟨wait, phase, wakeAt, hcontrol, rfl, hinside⟩ := exists_inside_of_departs hdeparts
    have hholder := (Exclusive.follow script []).holder hcontrol hinside
    rw [follow_nil, hstart] at hholder
    cases hholder

theorem Registered.waiters_pos {wait : ConditionWait} {holds : UInt32}
    {result : Except Error WaitOutcome} {wakeAt : Option Nat} (h : m.Registered)
    (hcontrol : m.control? me = some (.condition wait (.leaving holds result) wakeAt)) :
    0 < (m.world.sync.condition wait.condition).waiters := by
  obtain ⟨e, he, hleaving⟩ := control?_eq_some.mp hcontrol
  have hmem : .waiting wait (.leaving holds result) ∈ e.absences := by
    rw [Executor.absences, hleaving]
    exact List.mem_cons_self
  have hkind : (Absence.waiting wait (.leaving holds result)).isWait WaitPhase.isRegistered
      wait.condition := by simp [Absence.isWait, WaitPhase.isRegistered]
  exact Nat.lt_of_lt_of_le (waits_pos he hmem hkind) (h _)

def Overdrawn (c : ConditionId) (m : Machine) : Prop :=
  (m.world.sync.condition c).waiters < (m.world.sync.condition c).signals ∨
    (m.world.sync.condition c).waiters = (m.world.sync.condition c).signals ∧
      ∃ i, m.departs c i

theorem Overdrawn.of_overdraws (h : m.overdraws c me) : (m.step me).Overdrawn c := by
  simp only [overdraws, Bool.and_eq_true, decide_eq_true_eq] at h
  obtain ⟨hgranted, hoverdraws⟩ := h
  obtain ⟨op, hcontrol⟩ : ∃ op, m.control? me = some (.perform (.mutex op)) := by
    unfold granted at hgranted
    dsimp only at hgranted
    split at hgranted
    · next cv hcontrol => exact ⟨_, hcontrol⟩
    · next cv hcontrol => exact ⟨_, hcontrol⟩
    · cases hgranted
  have hsignals := m.signals_step me c
  have hwaiters := m.waiters_step me c
  simp only [signaled, failed, registers, deregisters, hcontrol, Bool.toNat_false]
    at hsignals hwaiters
  exact .inl (by omega)

theorem Overdrawn.step (h : m.Overdrawn c) (hexclusive : m.Exclusive) (hregistered : m.Registered)
    (hclosed : m.registers c me = false) : (m.step me).Overdrawn c := by
  rcases h with hmore | ⟨hequal, i, hdeparts⟩
  · cases m.countStep me c with
    | grants hbefore hafter hwaiters hsignals => exact .inl (by omega)
    | registers hregisters hafter hwaiters hsignals => simp [hclosed] at hregisters
    | takes hbefore hafter hwaiters hsignals =>
        by_cases hlast : (m.world.sync.condition c).waiters + 1 =
          (m.world.sync.condition c).signals
        · exact .inr ⟨by omega, me, hafter⟩
        · exact .inl (by omega)
    | leaves wait holds result wakeAt hcontrol hc hafter hwaiters hsignals =>
        have hpos := hregistered.waiters_pos hcontrol
        rw [hc] at hpos
        left
        have hle : (WaitPhase.leaving holds result).isFailed.toNat ≤ 1 := Bool.toNat_le _
        omega
  · by_cases hi : i = me
    · subst hi
      cases m.countStep i c with
      | grants hbefore hafter hwaiters hsignals => simp [hdeparts] at hbefore
      | registers hregisters hafter hwaiters hsignals => simp [hclosed] at hregisters
      | takes hbefore hafter hwaiters hsignals => simp [hdeparts] at hbefore
      | leaves wait holds result wakeAt hcontrol hc hafter hwaiters hsignals =>
          have hpos := hregistered.waiters_pos hcontrol
          rw [hc] at hpos
          obtain ⟨o, rfl⟩ : ∃ o, result = .ok o := by
            cases result with
            | ok o => exact ⟨o, rfl⟩
            | error e => simp [departs, hcontrol, WaitPhase.isSignaled] at hdeparts
          simp only [WaitPhase.isFailed, Bool.toNat_false] at hsignals
          exact .inl (by omega)
    · right
      rw [hexclusive.step_of_departs hi hdeparts]
      exact ⟨hequal, i, (departs_step_of_ne hi).trans hdeparts⟩

theorem Overdrawn.signals_pos (h : m.Overdrawn c) (hregistered : m.Registered)
    (hgone : (m.world.sync.condition c).waiters = 0) : 0 < (m.world.sync.condition c).signals := by
  rcases h with hmore | ⟨hequal, i, hdeparts⟩
  · omega
  · unfold departs at hdeparts
    split at hdeparts
    · next wait phase wakeAt hcontrol =>
      simp only [Bool.and_eq_true, beq_iff_eq] at hdeparts
      obtain ⟨rfl, hsignaled⟩ := hdeparts
      cases phase with
      | leaving holds result =>
          have hpos := hregistered.waiters_pos hcontrol
          omega
      | _ => cases hsignaled
    · cases hdeparts

end Machine

/-- Only an overdraft leaves a stale credit. In every run in which no signal and no broadcast leaves
the condition with more credits than waiters, no credit is pending when nobody is registered, and
from then on the waits that end as signalled are at most as many as the credits granted from then
on. After a step that does leave it with more credits than waiters, a credit is pending as soon as
nobody is registered, unless somebody registers before. -/
theorem overdrafts_leave_stale_credits (script : Script) (moves : List Move) (c : ConditionId) :
    let m := script.start.follow moves
    let condition := m.world.sync.condition c
    (script.start.along (fun m me => !m.overdraws c me) moves → condition.waiters = 0 →
        condition.signals = 0 ∧
          ∀ later, (m.ledger c later).signaled ≤ (m.ledger c later).granted) ∧
      ∀ me, m.overdraws c me → ∀ later,
        (m.step me).along (fun m me => !m.registers c me) later →
        let after := (m.step me).follow later
        (after.world.sync.condition c).waiters = 0 →
          0 < (after.world.sync.condition c).signals := by
  intro m condition
  refine ⟨?_, ?_⟩
  · intro hsolvent hempty
    have hcovered : m.Covered c := (Machine.covered_follow script hsolvent).1
    have hnone : condition.signals = 0 := by
      have hle := hcovered.signals
      simp only [condition] at hempty ⊢
      omega
    refine ⟨hnone, fun later => ?_⟩
    have hbooks := m.signals_follow later c
    simp only [condition] at hnone
    omega
  · intro me hoverdraws later hclosed after hgone
    have hbegun : (m.step me).Overdrawn c ∧ (m.step me).Exclusive ∧ (m.step me).Registered :=
      ⟨.of_overdraws hoverdraws, (Machine.Exclusive.follow script moves).step me,
        (Machine.Registered.follow script moves).step me⟩
    obtain ⟨hoverdrawn, -, hregistered⟩ :
        after.Overdrawn c ∧ after.Exclusive ∧ after.Registered := by
      refine Machine.follow_keeps (P := fun m => m.Overdrawn c ∧ m.Exclusive ∧ m.Registered)
        ?_ ?_ hclosed hbegun
      · intro m me hclosed ⟨hoverdrawn, hexclusive, hregistered⟩
        exact ⟨hoverdrawn.step hexclusive hregistered (by simpa using hclosed),
          hexclusive.step me, hregistered.step me⟩
      · intro m millis ⟨hoverdrawn, hexclusive, hregistered⟩
        exact ⟨hoverdrawn, ⟨hexclusive.holder, hexclusive.spent⟩, hregistered⟩
    exact hoverdrawn.signals_pos hregistered hgone

def handoverSettled : List Move :=
  handoverMoves ++ List.replicate 2 (.step 1) ++ [.step 0] ++ List.replicate 3 (.step 1)

/-- A thread that waits on a condition is given an action that signals the condition twice. When it
is back, it waits again. -/
def doubleSignal : Script where
  options := {}
  watched := []
  steps := [.mk false (.call (.lock "a" "m")),
    .mk false (.thread (.submit "a" "twice"
      (.mk [.mk false (.mutex (.signal "c")), .mk false (.mutex (.signal "c"))] none none .null))),
    .mk false (.call (.wait "a" "m" "c" .forever)),
    .mk false (.call (.wait "a" "m" "c" (.millis 2)))]

def doubleSignaler : Machine :=
  doubleSignal.start.follow (List.replicate 19 (.step 0))

theorem overdrafts_leave_stale_credits_doubleSignal :
    let settled := handover.start.follow handoverSettled
    let after := (doubleSignaler.step 0).follow (List.replicate 7 (.step 0))
    (settled.world.sync.condition 0).signals = 0 ∧ doubleSignaler.overdraws 0 0 ∧
      (after.world.sync.condition 0).waiters = 0 ∧ 0 < (after.world.sync.condition 0).signals := by
  intro settled after
  obtain ⟨hsettled, -⟩ := overdrafts_leave_stale_credits handover handoverSettled 0
  obtain ⟨-, hstale⟩ := overdrafts_leave_stale_credits doubleSignal (List.replicate 19 (.step 0)) 0
  have hsolvent : handover.start.along (fun m me => !m.overdraws 0 me) handoverSettled := by
    decide +kernel
  have hempty : (settled.world.sync.condition 0).waiters = 0 := by decide +kernel
  have hoverdraws : doubleSignaler.overdraws 0 0 := by decide +kernel
  have hclosed : (doubleSignaler.step 0).along (fun m me => !m.registers 0 me)
      (List.replicate 7 (.step 0)) := by decide +kernel
  have hgone : (after.world.sync.condition 0).waiters = 0 := by decide +kernel
  exact ⟨(hsettled hsolvent hempty).1, hoverdraws, hgone, hstale 0 hoverdraws _ hclosed hgone⟩

/-- The second signal outlives the wait that it was meant for: nobody is registered, a credit is
pending, and the next wait ends as signalled though nothing is granted to it. -/
theorem doubleSignal_ends_next_wait :
    let m := doubleSignal.start.follow (List.replicate 33 (.step 0))
    let ledger := m.ledger 0 (List.replicate 5 (.step 0))
    (m.world.sync.condition 0).waiters = 0 ∧ (m.world.sync.condition 0).signals = 1 ∧
      ledger.granted = 0 ∧ ledger.signaled = 1 := by
  intro m ledger
  have hwaiters : (m.world.sync.condition 0).waiters = 0 := by decide +kernel
  have hsignals : (m.world.sync.condition 0).signals = 1 := by decide +kernel
  have hgranted : ledger.granted = 0 := by decide +kernel
  have hsignaled : ledger.signaled = 1 := by decide +kernel
  exact ⟨hwaiters, hsignals, hgranted, hsignaled⟩

end RubyRuntime.Session
