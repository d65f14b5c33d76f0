import RubyRuntime.Proofs.Session.Launches

/-!
# One step of a condition wait

`ConditionWait.Steps` lists all that one step of a wait can come to, each outcome with what has to
hold for it. Whatever a step keeps, changes or counts is read off this list, so that nothing else
depends on how the step is computed.
-/
namespace RubyRuntime

namespace ConditionWait

variable {α : Type}

/-- What a step of `me`, who waits as `wait` says, can make of a phase and a state. -/
inductive Steps (now me : Nat) (wait : ConditionWait) (s : Sync α) :
    WaitPhase → WaitPhase × Sync α → Prop where
  | stays {phase : WaitPhase} (houtside : phase.isInside = false)
    (hreason : (s.condition wait.condition).holder.isSome ∨ (∃ holds, phase = .polling holds) ∨
      ∃ holds result, phase = .relocking holds result) : Steps now me wait s phase (phase, s)
  | enters (hfree : (s.condition wait.condition).holder = none) :
    Steps now me wait s .entering (.releasing, s.updateCondition wait.condition (·.enter me))
  | releases :
    Steps now me wait s .releasing (.registering ((s.lock wait.lock).holdCount wait.thread),
      (s.updateLock wait.lock (·.releaseFully wait.thread)).updateThread wait.thread
        (·.removeOwned wait.lock))
  | registers {holds : UInt32} :
    Steps now me wait s (.registering holds)
      (.checking holds, s.updateCondition wait.condition Condition.register)
  | takes {phase : WaitPhase} {holds : UInt32} {after : Condition}
    (hphase : phase = .checking holds ∨ phase = .awake holds)
    (hconsume : (s.condition wait.condition).consume? = some after) :
    Steps now me wait s phase
      (.leaving holds (.ok .signaled), s.updateCondition wait.condition fun _ => after)
  | wakes {holds : UInt32} (hnone : (s.condition wait.condition).consume? = none)
    (hflag : (s.thread wait.thread).wakeUp) :
    Steps now me wait s (.checking holds)
      (.leaving holds (.ok .woken), s.updateThread wait.thread (·.dropWakeUp))
  | expires {holds : UInt32} (hnone : (s.condition wait.condition).consume? = none)
    (hquiet : (s.thread wait.thread).wakeUp = false) (hlate : isLate now wait.deadline) :
    Steps now me wait s (.checking holds) (.leaving holds (.ok .timedOut), s)
  | parks {holds : UInt32} (hnone : (s.condition wait.condition).consume? = none)
    (hquiet : (s.thread wait.thread).wakeUp = false)
    (hearly : isLate now wait.deadline = false) :
    Steps now me wait s (.checking holds) (.parked holds s.drawTicket.1,
      s.drawTicket.2.updateCondition wait.condition (·.park s.drawTicket.1))
  | unparks {holds : UInt32} {ticket : Ticket}
    (hfree : (s.condition wait.condition).holder = none) :
    Steps now me wait s (.parked holds ticket) (.awake holds,
      s.updateCondition wait.condition fun condition => (condition.unpark ticket).enter me)
  | heeds {holds : UInt32} (hnone : (s.condition wait.condition).consume? = none)
    (hinterrupted : (s.thread wait.thread).interrupted) :
    Steps now me wait s (.awake holds) (.polling holds,
      (s.updateCondition wait.condition Condition.exit).updateThread wait.thread
        (·.dropInterrupt))
  | rechecks {holds : UInt32} (hnone : (s.condition wait.condition).consume? = none)
    (hquiet : (s.thread wait.thread).interrupted = false) :
    Steps now me wait s (.awake holds) (.checking holds, s)
  | returns {holds : UInt32} (hfree : (s.condition wait.condition).holder = none) :
    Steps now me wait s (.returning holds none)
      (.checking holds, s.updateCondition wait.condition (·.enter me))
  | fails {holds : UInt32} {e : Error} (hfree : (s.condition wait.condition).holder = none) :
    Steps now me wait s (.returning holds (some e))
      (.leaving holds (.error e), s.updateCondition wait.condition (·.enter me))
  | leaves {holds : UInt32} {o : WaitOutcome} :
    Steps now me wait s (.leaving holds (.ok o)) (.relocking holds (.ok o),
      s.updateCondition wait.condition fun condition => condition.deregister.exit)
  /-- A wait that has failed takes a credit along if there is one. -/
  | withdraws {holds : UInt32} {e : Error} :
    Steps now me wait s (.leaving holds (.error e)) (.relocking holds (.error e),
      s.updateCondition wait.condition fun condition =>
        (condition.consume?.getD condition).deregister.exit)

theorem steps (now me : Nat) (wait : ConditionWait) (phase : WaitPhase) (s : Sync α) :
    wait.Steps now me s phase (wait.step now me phase s) := by
  have henter : ∀ here next, here.isInside = false →
      ((s.condition wait.condition).holder = none → wait.Steps now me s here
        (next, s.updateCondition wait.condition (·.enter me))) →
      wait.Steps now me s here (wait.enter me here next s) := by
    intro here next houtside hgoes
    unfold enter
    split
    · next hheld => exact .stays houtside (.inl hheld)
    · next hfree => exact hgoes (by simpa using hfree)
  cases phase with
  | entering => exact henter _ _ rfl .enters
  | releasing => exact .releases
  | registering holds => exact .registers
  | checking holds =>
      simp only [step]
      split
      · next after hconsume => exact .takes (.inl rfl) hconsume
      · next hnone =>
        split
        · next hflag => exact .wakes hnone hflag
        · next hquiet =>
          have hquiet := Bool.eq_false_iff.mpr hquiet
          split
          · next hlate => exact .expires hnone hquiet hlate
          · next hearly => exact .parks hnone hquiet (Bool.eq_false_iff.mpr hearly)
  | parked holds ticket =>
      simp only [step]
      split
      · next hheld => exact .stays rfl (.inl hheld)
      · next hfree => exact .unparks (by simpa using hfree)
  | awake holds =>
      simp only [step]
      split
      · next after hconsume => exact .takes (.inr rfl) hconsume
      · next hnone =>
        split
        · next hinterrupted => exact .heeds hnone hinterrupted
        · next hquiet => exact .rechecks hnone (Bool.eq_false_iff.mpr hquiet)
  | polling holds => exact .stays rfl (.inr (.inl ⟨holds, rfl⟩))
  | returning holds failure =>
      cases failure with
      | none => exact henter _ _ rfl .returns
      | some e => exact henter _ _ rfl .fails
  | leaving holds result =>
      cases result with
      | ok o => exact .leaves
      | error e => exact .withdraws
  | relocking holds result => exact .stays rfl (.inr (.inr ⟨holds, result, rfl⟩))

theorem Steps.eq_of_releasing {now me : Nat} {wait : ConditionWait} {s : Sync α}
    {after : WaitPhase × Sync α} (h : wait.Steps now me s .releasing after) :
    after = wait.step now me .releasing s := by
  cases h with
  | releases => rfl
  | takes hphase hconsume => simp at hphase
  | stays houtside hreason => cases houtside

end ConditionWait

end RubyRuntime
