import Mathlib.Algebra.GroupWithZero.Nat
import RubyRuntime.Proofs.Condition.Credits
import RubyRuntime.Proofs.Session.Absences

/-!
# Registered waits

A wait registers before anybody can see that its mutex is free, and stays registered until it
deregisters, also while its thread runs safepoint actions. The main result is that a condition
counts at least as many waiters as there are waits that have released their mutex and not
deregistered, whenever nobody is inside its private critical section. So a signal or a broadcast
that comes after the release always finds a waiter.
-/
namespace RubyRuntime

namespace WaitPhase

def isRegistered : WaitPhase → Bool
  | checking _ | parked _ _ | awake _ | polling _ | returning _ _ | leaving _ _ => true
  | entering | releasing | registering _ | relocking _ _ => false

/-- Whether a wait in this phase has released its mutex and not deregistered. -/
def isAway : WaitPhase → Bool
  | registering _ => true
  | phase => phase.isRegistered

def isRegistering : WaitPhase → Bool
  | registering _ => true
  | _ => false

def isLeaving : WaitPhase → Bool
  | leaving _ _ => true
  | _ => false

end WaitPhase

theorem Condition.waiters_consume? {condition after : Condition}
    (h : condition.consume? = some after) : after.waiters = condition.waiters := by
  unfold consume? at h
  split at h <;> cases h
  rfl

namespace ConditionWait.Steps

variable {α : Type} {now me : Nat} {wait : ConditionWait} {phase : WaitPhase} {s : Sync α}
  {after : WaitPhase × Sync α}

/-- A wait counts as a waiter from its registration until it deregisters. -/
theorem waiters (h : wait.Steps now me s phase after) :
    (after.2.condition wait.condition).waiters =
      (s.condition wait.condition).waiters + phase.isRegistering.toNat - phase.isLeaving.toNat := by
  cases h with
  | stays houtside hreason => cases phase <;> first | rfl | cases houtside
  | takes hphase hconsume =>
      rw [Sync.condition_updateCondition_self, Condition.waiters_consume? hconsume]
      rcases hphase with rfl | rfl <;> rfl
  | withdraws =>
      simp only [Sync.condition_updateCondition_self]
      cases hconsume : (s.condition wait.condition).consume? with
      | none => rfl
      | some condition =>
          have hsame := Condition.waiters_consume? hconsume
          simp [Condition.deregister, Condition.exit, WaitPhase.isRegistering,
            WaitPhase.isLeaving, hsame]
  | releases | wakes | expires | rechecks => rfl
  | heeds =>
      simp only [Sync.condition_updateThread, Sync.condition_updateCondition_self]
      rfl
  | _ =>
      simp only [Sync.condition_updateCondition_self]
      rfl

theorem isRegistered (h : wait.Steps now me s phase after) :
    after.1.isRegistered.toNat + phase.isLeaving.toNat =
      phase.isRegistered.toNat + phase.isRegistering.toNat := by
  cases h with
  | stays houtside hreason => cases phase <;> first | rfl | cases houtside
  | takes hphase hconsume => rcases hphase with rfl | rfl <;> rfl
  | _ => rfl

end ConditionWait.Steps

namespace Session

def Absence.isWait (kind : WaitPhase → Bool) (c : ConditionId) : Absence → Bool
  | .waiting wait phase => wait.condition == c && kind phase
  | .relocking _ _ _ => false

def Executor.waits (kind : WaitPhase → Bool) (c : ConditionId) (e : Executor) : Nat :=
  e.absences.countP (Absence.isWait kind c)

/-- The number of waits on a condition in a phase of the kind. -/
def Machine.waits (kind : WaitPhase → Bool) (c : ConditionId) (m : Machine) : Nat :=
  (m.executors.map (·.waits kind c)).sum

theorem sum_map_set {α : Type} (f : α → Nat) {l : List α} {i : Nat} {a : α} (b : α)
    (h : l[i]? = some a) : ((l.set i b).map f).sum + f a = (l.map f).sum + f b := by
  induction l generalizing i with
  | nil => cases h
  | cons first rest ih =>
      cases i with
      | zero =>
          cases h
          simp only [List.set_cons_zero, List.map_cons, List.sum_cons]
          omega
      | succ i =>
          have hrest := ih h
          simp only [List.set_cons_succ, List.map_cons, List.sum_cons]
          omega

theorem Executor.Turns.registered_le {w : World} {e : Executor} {before after : List Absence}
    (h : e.Turns w before after) (c : ConditionId) :
    after.countP (Absence.isWait WaitPhase.isRegistered c) ≤
      before.countP (Absence.isWait WaitPhase.isRegistered c) := by
  cases h with
  | keeps => exact Nat.le_refl _
  | begins wait rest => simp [Absence.isWait, WaitPhase.isRegistered]
  | returns wait holds failure rest =>
      simp [List.countP_cons, Absence.isWait, WaitPhase.isRegistered]
  | relocks wait holds result rest => simp [Absence.isWait, WaitPhase.isRegistered]
  | takes t l holds rest hholds => simp [Absence.isWait]
  | drops absence rest => simp [List.countP_cons]
  | ends => simp

namespace Machine

variable {m : Machine} {me : Nat} {e e' : Executor}

def registers (c : ConditionId) (m : Machine) (me : Nat) : Bool :=
  match m.control? me with
  | some (.condition wait phase _) => wait.condition == c && phase.isRegistering
  | _ => false

def deregisters (c : ConditionId) (m : Machine) (me : Nat) : Bool :=
  match m.control? me with
  | some (.condition wait phase _) => wait.condition == c && phase.isLeaving
  | _ => false

theorem waiters_step (m : Machine) (me : Nat) (c : ConditionId) :
    ((m.step me).world.sync.condition c).waiters =
      (m.world.sync.condition c).waiters + (m.registers c me).toNat -
        (m.deregisters c me).toNat := by
  cases m.conditionStep me with
  | waits wait phase wakeAt wakeAt' hcontrol hsync hnext =>
      simp only [registers, deregisters, hcontrol, hsync]
      by_cases hc : wait.condition = c
      · subst hc
        simpa using (wait.steps m.world.clock me phase m.world.sync).waiters
      · have hne : (wait.condition == c) = false := beq_eq_false_iff_ne.mpr hc
        simp [hne, (wait.steps _ _ _ _).condition_of_ne hc]
  | grants op cv f hcontrol hgrant hfree hcondition hnext =>
      have hf : ∀ condition : Condition, (f condition).waiters = condition.waiters := by
        intro condition
        cases op with
        | signal cv' =>
            cases hgrant
            unfold Condition.signal
            split <;> rfl
        | broadcast cv' =>
            cases hgrant
            unfold Condition.broadcast
            split <;> rfl
        | _ => cases hgrant
      simp only [registers, deregisters, hcontrol, hcondition c]
      split
      · exact hf _
      · rfl
  | none hcondition houtside hnext hblocked =>
      have hnone : m.registers c me = false ∧ m.deregisters c me = false := by
        unfold registers deregisters
        split
        · next wait phase wakeAt hcontrol =>
          have hout := houtside _ _ _ hcontrol
          cases phase <;> simp_all [WaitPhase.isInside, WaitPhase.isRegistering,
            WaitPhase.isLeaving]
        · exact ⟨rfl, rfl⟩
      rw [hnone.1, hnone.2, hcondition c]
      rfl

theorem waits_step (kind : WaitPhase → Bool) (c : ConditionId) (he : m.executors[me]? = some e)
    (he' : (m.step me).executors[me]? = some e') :
    (m.step me).waits kind c + e.waits kind c = m.waits kind c + e'.waits kind c := by
  rcases m.step_cases me with hsame | ⟨old, hold, new, spawned, -, hexecutors, hfresh⟩
  · rw [hsame, he] at he'
    cases he'
    rw [hsame]
  · obtain rfl : e = old := Option.some.inj (he.symm.trans hold)
    have hlength : me < m.executors.length := (List.getElem?_eq_some_iff.mp he).1
    rw [hexecutors, List.getElem?_append_left (by simpa using hlength),
      List.getElem?_set_self hlength] at he'
    obtain rfl : new = e' := Option.some.inj he'
    have hspawned : (spawned.map (·.waits kind c)).sum = 0 := by
      rw [List.sum_eq_zero_iff_forall_eq_nat]
      intro n hn
      obtain ⟨x, hx, rfl⟩ := List.mem_map.mp hn
      simp [Executor.waits, absences_fresh (hfresh x hx)]
    have hset := sum_map_set (·.waits kind c) new he
    simp only [waits, hexecutors, List.map_append, List.sum_append, hspawned]
    omega

def Registered (m : Machine) : Prop :=
  ∀ c, m.waits WaitPhase.isRegistered c ≤ (m.world.sync.condition c).waiters

private theorem waiters_step_of_idle
    (hidle : ∀ wait phase wakeAt, m.control? me = some (.condition wait phase wakeAt) →
      phase.isOwn = false) (c : ConditionId) :
    ((m.step me).world.sync.condition c).waiters = (m.world.sync.condition c).waiters := by
  have hnone : m.registers c me = false ∧ m.deregisters c me = false := by
    unfold registers deregisters
    split
    · next wait phase wakeAt hcontrol =>
      have hphase := hidle _ _ _ hcontrol
      cases phase <;> simp_all [WaitPhase.isOwn, WaitPhase.isRegistering, WaitPhase.isLeaving]
    · exact ⟨rfl, rfl⟩
  rw [m.waiters_step me c, hnone.1, hnone.2]
  rfl

theorem Registered.step (h : m.Registered) (me : Nat) : (m.step me).Registered := by
  intro c
  cases he : m.executors[me]? with
  | none =>
      have hsame : m.step me = m := by simp [Machine.step, he]
      rw [hsame]
      exact h c
  | some e =>
      obtain ⟨e', he'⟩ : ∃ e', (m.step me).executors[me]? = some e' := exists_executor_step he
      have hcount := waits_step WaitPhase.isRegistered c he he'
      have hbefore := h c
      have hstep := absenceStep he he'
      generalize habsences : e'.absences = absences at hstep
      cases hstep with
      | waits wait phase wakeAt hcontrol hown hsync =>
          have hrest : ∀ phase, (Absence.waiting wait phase :: absencesOn e.stack).countP
              (Absence.isWait WaitPhase.isRegistered c) =
              (absencesOn e.stack).countP (Absence.isWait WaitPhase.isRegistered c) +
                (wait.condition == c && phase.isRegistered).toNat := by
            intro phase
            rw [List.countP_cons]
            cases hphase : wait.condition == c && phase.isRegistered <;>
              simp [Absence.isWait, hphase]
          have hold : e.absences = .waiting wait phase :: absencesOn e.stack := by
            rw [Executor.absences, hcontrol]
            rfl
          have hcontrol? : m.control? me = some (.condition wait phase wakeAt) :=
            control?_eq_some.mpr ⟨e, he, hcontrol⟩
          have hwaiters := m.waiters_step me c
          simp only [registers, deregisters, hcontrol?] at hwaiters
          simp only [Executor.waits, hold, habsences, hrest] at hcount
          have hphases := (wait.steps m.world.clock me phase m.world.sync).isRegistered
          cases hc : wait.condition == c with
          | true =>
              simp only [hc, Bool.true_and] at hcount hwaiters
              omega
          | false =>
              simp only [hc, Bool.false_and, Bool.toNat_false] at hcount hwaiters
              omega
      | turns hidle hturns =>
          have hle : e'.waits WaitPhase.isRegistered c ≤ e.waits WaitPhase.isRegistered c := by
            rw [Executor.waits, habsences]
            exact hturns.registered_le c
          have hwaiters : ((m.step me).world.sync.condition c).waiters =
              (m.world.sync.condition c).waiters := by
            apply waiters_step_of_idle
            intro wait phase wakeAt hcontrol
            obtain ⟨x, hx, hcontrol⟩ := control?_eq_some.mp hcontrol
            rw [he] at hx
            cases hx
            exact hidle _ _ _ hcontrol
          omega

theorem Registered.follow (script : Script) (moves : List Move) :
    (script.start.follow moves).Registered := by
  refine follow_always moves (fun m me h => h.step me) (fun m millis h => h) ?_
  intro c
  have hnone : script.start.waits WaitPhase.isRegistered c = 0 := by
    rw [waits, List.sum_eq_zero_iff_forall_eq_nat]
    intro n hn
    obtain ⟨x, hx, rfl⟩ := List.mem_map.mp hn
    obtain ⟨i, hi⟩ := List.mem_iff_getElem?.mp hx
    simp [Executor.waits, absences_fresh (Script.fresh_start hi)]
  rw [hnone]
  exact Nat.zero_le _

/-- A wait that has released its mutex and not registered is inside the critical section. -/
theorem Exclusive.away_eq_registered {c : ConditionId} (h : m.Exclusive)
    (hfree : (m.world.sync.condition c).holder = none) :
    m.waits WaitPhase.isAway c = m.waits WaitPhase.isRegistered c := by
  unfold waits
  congr 1
  refine List.map_congr_left fun e hmem => List.countP_congr fun absence habsence => ?_
  obtain ⟨i, he⟩ := List.mem_iff_getElem?.mp hmem
  rcases List.mem_append.mp habsence with hcontrol | hstack
  · cases hcontrol' : e.control with
    | condition wait phase wakeAt =>
        rw [hcontrol'] at hcontrol
        obtain rfl : absence = .waiting wait phase := by simpa [Control.absence?] using hcontrol
        cases phase with
        | registering holds =>
            have hne : wait.condition ≠ c := by
              rintro rfl
              have hholder := h.holder (control?_eq_some.mpr ⟨e, he, hcontrol'⟩) rfl
              rw [hfree] at hholder
              cases hholder
            simp [Absence.isWait, hne]
        | _ => rfl
    | _ =>
        rw [hcontrol'] at hcontrol
        cases hcontrol
  · obtain ⟨frame, -, hframe⟩ := List.mem_filterMap.mp hstack
    cases frame <;> cases hframe <;> rfl

theorem waits_pos {kind : WaitPhase → Bool} {c : ConditionId} {absence : Absence}
    (he : m.executors[me]? = some e) (hmem : absence ∈ e.absences)
    (hkind : absence.isWait kind c) : 0 < m.waits kind c := by
  rw [waits, List.sum_pos_iff_exists_pos_nat]
  refine ⟨_, List.mem_map_of_mem (List.mem_of_getElem? he), ?_⟩
  exact List.countP_pos_iff.mpr ⟨absence, hmem, hkind⟩

theorem granted_pos {c : ConditionId} {op : MutexOp} {cv : String}
    {f : Condition → Condition} (hcontrol : m.control? me = some (.perform (.mutex op)))
    (hgrant : op.grant? = some (cv, f)) (hc : (m.world.conditionNamed cv).1 = c)
    (hfree : (m.world.sync.condition c).holder = none)
    (hwaiters : 0 < (m.world.sync.condition c).waiters) :
    0 < m.granted c me ∧ ((m.step me).world.sync.condition c).signals =
      (m.world.sync.condition c).signals + m.granted c me := by
  have hsignaled : m.signaled c me = 0 := by simp [signaled, hcontrol]
  have hfailed : m.failed c me = 0 := by simp [failed, hcontrol]
  have hbooks := m.signals_step me c
  refine ⟨?_, by omega⟩
  cases op with
  | signal cv' =>
      cases hgrant
      simp [granted, hcontrol, hc, hfree]
      omega
  | broadcast cv' =>
      cases hgrant
      simp [granted, hcontrol, hc, hfree, hwaiters]
  | _ => cases hgrant

theorem step_of_held {op : MutexOp} {cv : String} {f : Condition → Condition}
    (hcontrol : m.control? me = some (.perform (.mutex op))) (hgrant : op.grant? = some (cv, f))
    (hheld : (m.world.sync.condition (m.world.conditionNamed cv).1).holder ≠ none) :
    m.step me = m := by
  obtain ⟨e, he, hperform⟩ := control?_eq_some.mp hcontrol
  have hwait : op.mustWait m.world := by
    rw [← Option.isSome_iff_ne_none] at hheld
    cases op <;> cases hgrant <;> exact hheld
  simp [step, he, hperform, perform, hwait]

end Machine

/-- A wait releases its mutex and registers as one. In every run of every session, while nobody is
inside the private critical section of a condition, it counts at least as many waiters as there are
waits on it that have released their mutex and not deregistered. As long as there is such a wait, a
signal or a broadcast grants at least one credit as soon as it comes inside. The mutex is released
inside, and the wait that has released it stays inside. -/
theorem away_waits_counted (script : Script) (moves : List Move) (c : ConditionId) :
    let m := script.start.follow moves
    let condition := m.world.sync.condition c
    (condition.holder = none → m.waits WaitPhase.isAway c ≤ condition.waiters) ∧
      (∀ (i : Nat) (e : Executor) (wait : ConditionWait) (phase : WaitPhase),
        m.executors[i]? = some e → .waiting wait phase ∈ e.absences → wait.condition = c →
        phase.isAway → ∀ j op cv f, m.control? j = some (.perform (.mutex op)) →
          op.grant? = some (cv, f) → (m.world.conditionNamed cv).1 = c →
          if condition.holder = none then
            0 < condition.waiters ∧ 0 < m.granted c j ∧
              ((m.step j).world.sync.condition c).signals = condition.signals + m.granted c j
          else m.step j = m) ∧
      ∀ i wait wakeAt, m.control? i = some (.condition wait .releasing wakeAt) →
        wait.condition = c →
        let after := m.step i
        condition.holder = some i ∧ (after.world.sync.condition c).holder = some i ∧
          (after.world.sync.lock wait.lock).owner ≠ some wait.thread ∧ ∃ holds wakeAt',
            after.control? i = some (.condition wait (.registering holds) wakeAt') := by
  intro m condition
  have hexclusive : m.Exclusive := .follow script moves
  have hcounted : condition.holder = none → m.waits WaitPhase.isAway c ≤ condition.waiters := by
    intro hfree
    rw [hexclusive.away_eq_registered hfree]
    exact Machine.Registered.follow script moves c
  refine ⟨hcounted, ?_, ?_⟩
  · intro i e wait phase he hmem hc haway j op cv f hcontrol hgrant hcv
    split
    · next hfree =>
      have haway' : (Absence.waiting wait phase).isWait WaitPhase.isAway c := by
        simp [Absence.isWait, hc, haway]
      have hwaiters : 0 < condition.waiters :=
        Nat.lt_of_lt_of_le (Machine.waits_pos he hmem haway') (hcounted hfree)
      exact ⟨hwaiters, Machine.granted_pos hcontrol hgrant hcv hfree hwaiters⟩
    · next hheld =>
      subst hcv
      exact Machine.step_of_held hcontrol hgrant hheld
  · intro i wait wakeAt hcontrol hc after
    subst hc
    have hholder := hexclusive.holder hcontrol rfl
    obtain ⟨e, he, hphase⟩ := Machine.control?_eq_some.mp hcontrol
    have hstep : after = m.put i e.current (continueWait i wait .releasing m.world e.stack) := by
      simp [after, Machine.step, he, hphase]
    rw [hstep]
    refine ⟨hholder, hholder, ?_, _, _, Machine.control?_put he _ _⟩
    simp only [Machine.put, continueWait, ConditionWait.step, Sync.lock_updateThread,
      Sync.lock_updateLock, if_pos]
    exact (Lock.owner_releaseFully wait.thread _).1

/-- A thread waits on a condition, and another one takes the mutex and signals the condition. -/
def handover : Script where
  options := {}
  watched := []
  steps := [.mk false (.call (.spawn "waiter" none
      (.mk [.mk false (.call (.lock "waiter" "m")),
        .mk false (.call (.wait "waiter" "m" "c" .forever))] none none .null))),
    .mk false (.call (.lock "main" "m")), .mk false (.mutex (.signal "c"))]

def handoverMoves : List Move :=
  List.replicate 3 (.step 0) ++ List.replicate 8 (.step 1) ++ List.replicate 5 (.step 0)

theorem away_waits_counted_handover :
    let m := handover.start.follow handoverMoves
    let later := handover.start.follow (handoverMoves ++ List.replicate 2 (.step 1))
    (m.world.sync.lock 0).owner = some 1 ∧ m.step 0 = m ∧
      0 < (later.world.sync.condition 0).waiters ∧ 0 < later.granted 0 0 := by
  intro m later
  have hheld : (m.world.sync.condition 0).holder = some 1 := by decide +kernel
  have hfree : (later.world.sync.condition 0).holder = none := by decide +kernel
  obtain ⟨e, he, hmem⟩ : ∃ e, m.executors[1]? = some e ∧
      .waiting ⟨0, 0, 0, none⟩ (.registering 1) ∈ e.absences := ⟨_, rfl, List.mem_cons_self⟩
  obtain ⟨e', he', hmem'⟩ : ∃ e', later.executors[1]? = some e' ∧
      .waiting ⟨0, 0, 0, none⟩ (.parked 1 0) ∈ e'.absences := ⟨_, rfl, List.mem_cons_self⟩
  obtain ⟨-, hwaits, -⟩ := away_waits_counted handover handoverMoves 0
  have hblocked := hwaits 1 e _ _ he hmem rfl rfl 0 (.signal "c") "c" _ rfl rfl (by decide +kernel)
  rw [if_neg (by rw [hheld]; simp)] at hblocked
  obtain ⟨-, hgrants, -⟩ :=
    away_waits_counted handover (handoverMoves ++ List.replicate 2 (.step 1)) 0
  have hgranted := hgrants 1 e' _ _ he' hmem' rfl rfl 0 (.signal "c") "c" _ rfl rfl
    (by decide +kernel)
  rw [if_pos hfree] at hgranted
  exact ⟨by decide +kernel, hblocked, hgranted.1, hgranted.2.1⟩

end Session

end RubyRuntime
