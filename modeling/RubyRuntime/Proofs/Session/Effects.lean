import RubyRuntime.Proofs.Condition.Steps
import RubyRuntime.Proofs.Session.Advances

/-!
# What a step of the machine does to locks and conditions

Every step makes one move on the locks, on behalf of the thread that the executor is working for.
A condition changes only by a step of a wait on it or by a signal or a broadcast, and nobody comes
inside its critical section in any other way.
-/
namespace RubyRuntime

namespace ConditionWait

namespace Steps

variable {α : Type} {now me : Nat} {wait : ConditionWait} {phase : WaitPhase} {s : Sync α}
  {after : WaitPhase × Sync α}

theorem sameLocks (h : wait.Steps now me s phase after) (hphase : phase ≠ .releasing) :
    s.SameLocks after.2 := by
  cases h with
  | releases => exact absurd rfl hphase
  | wakes hnone hflag =>
      exact (Sync.Alike.updateThread s wait.thread (f := (·.dropWakeUp)) fun _ => rfl).toSameLocks
  | heeds hnone hinterrupted =>
      have hthread := Sync.Alike.updateThread (s.updateCondition wait.condition Condition.exit)
        wait.thread (f := (·.dropInterrupt)) fun _ => rfl
      exact ⟨hthread.owner, hthread.holds, hthread.owned⟩
  | _ => exact ⟨fun _ => rfl, fun _ => rfl, fun _ => rfl⟩

theorem lockMove (h : wait.Steps now me s phase after) (tampered : Option LockId) :
    Sync.LockMove (some wait.thread) tampered s after.2 := by
  by_cases hphase : phase = .releasing
  · subst hphase
    rw [h.eq_of_releasing]
    exact .release wait.thread wait.lock s
  · exact .still (h.sameLocks hphase)

theorem owner (h : wait.Steps now me s phase after) {k : LockId} {u : ThreadId}
    (howner : (after.2.lock k).owner = some u) : (s.lock k).owner = some u := by
  by_cases hphase : phase = .releasing
  · subst hphase
    simp only [h.eq_of_releasing, step, Sync.lock_updateThread, Sync.lock_updateLock] at howner
    split at howner
    · exact Lock.owner_of_releaseFully howner
    · exact howner
  · rwa [(h.sameLocks hphase).owner] at howner

theorem condition_of_ne (h : wait.Steps now me s phase after) {c : ConditionId}
    (hc : wait.condition ≠ c) : after.2.condition c = s.condition c := by
  have hcondition : ∀ (s : Sync α) f,
      (s.updateCondition wait.condition f).condition c = s.condition c := by
    intro s f
    rw [Sync.condition_updateCondition, if_neg hc]
  cases h with
  | stays | releases | wakes | expires | rechecks => rfl
  | _ => exact hcondition _ _

end Steps

end ConditionWait

namespace Session

/-- A call that begins makes at most one move, on behalf of its actor. -/
theorem Task.Begun.moves {task : Task} {w : World} {stack : List Frame} {actor : Option ThreadId}
    (h : task.Begun w stack actor) (tampered : Option LockId) :
    w.Moves actor tampered task.world := by
  cases h with
  | launched h => exact h.alike.moves _ _
  | seated y halike hacquire hdue hbase =>
      exact ⟨⟨_, halike, .acquire hacquire⟩, fun c =>
        (Sync.condition_of_acquire hacquire c).trans (halike.condition c)⟩
  | blocked halike hdue hbase => exact halike.moves _ _
  | releasing halike hheld hbase => exact halike.moves _ _

theorem Task.Begun.not_inside {task : Task} {w : World} {stack : List Frame}
    {actor : Option ThreadId} (h : task.Begun w stack actor) {wait : ConditionWait}
    {phase : WaitPhase} {wakeAt : Option Nat}
    (hcontrol : task.control = .condition wait phase wakeAt) : phase.isInside = false := by
  cases h with
  | launched h =>
      have hordinary := h.control
      rw [hcontrol] at hordinary
      simpa [Control.isOrdinary] using hordinary
  | seated | blocked | releasing => cases hcontrol

namespace Advance

variable {me : Nat} {w : World} {e : Executor} {task : Task}

private theorem actor?_of_seat {outcome : Outcome} {frame : Frame} {base : List Frame}
    {t : ThreadId} {l : LockId} (hcontrol : e.control = .give outcome)
    (hstack : e.stack = frame :: base) (hseat : frame.seat? = some (t, l)) :
    e.actor? w = some t := by
  simp only [Executor.actor?, hcontrol, hstack]
  cases frame <;> cases hseat <;> rfl

private theorem tampered?_of_give {outcome : Outcome} (hcontrol : e.control = .give outcome) :
    e.tampered? w = none := by
  simp [Executor.tampered?, hcontrol]

theorem lockMove (h : Advance me w e task) :
    ∃ s, w.sync.Alike s ∧ Sync.LockMove (e.actor? w) (e.tampered? w) s task.world.sync := by
  have halike : ∀ {w' : World}, w.Alike w' →
      ∃ s, w.sync.Alike s ∧ Sync.LockMove (e.actor? w) (e.tampered? w) s w'.sync :=
    fun h => (h.moves _ _).move
  cases h with
  | begins hbase h => exact (h.moves _).move
  | passes hcontrol hstack h hresult => exact halike h
  | retries hcontrol hstack h => exact halike h
  | perseveres hcontrol hstack h => exact halike h
  | @takes t l w' sync hcontrol h hacquire =>
      have hactor : e.actor? w = some t := by
        rcases hcontrol with hcontrol | ⟨ticket, wakeAt, hcontrol⟩ <;>
          simp [Executor.actor?, hcontrol, Wait.quest?]
      rw [hactor]
      exact ⟨w'.sync, h, .acquire hacquire⟩
  | waits hcontrol h hnext => exact halike h
  | polls hcontrol hstack h => exact halike h.alike
  | refuses hcontrol hstack => exact halike (.refl w)
  | records hcontrol hstack hseat hmoves hlisted howner =>
      rw [actor?_of_seat hcontrol hstack hseat, tampered?_of_give hcontrol]
      exact hmoves.move
  | misses hcontrol hstack hseat hmoves hfree howner =>
      rw [actor?_of_seat hcontrol hstack hseat, tampered?_of_give hcontrol]
      exact hmoves.move
  | @releases t l sync hcontrol hunlock =>
      have hactor : e.actor? w = some t := by simp [Executor.actor?, hcontrol]
      rw [hactor]
      exact ⟨w.sync, .refl _, .unlock hunlock⟩
  | fails hcontrol herror => exact halike (.refl w)
  | @continues wait phase wakeAt wakeAt' hcontrol =>
      have hactor : e.actor? w = some wait.thread := by simp [Executor.actor?, hcontrol]
      rw [hactor]
      exact ⟨w.sync, .refl _, (wait.steps w.clock me phase w.sync).lockMove _⟩
  | acts hcontrol hmoves howner hgive hstack => exact hmoves.move
  | awaits hcontrol => exact halike (World.alike_threadAndLock w _ _)
  | @grants op cv f hcontrol hop hfree =>
      exact ⟨_, World.alike_conditionNamed w cv, .still ⟨fun _ => rfl, fun _ => rfl, fun _ => rfl⟩⟩
  | @ends report result failure run t base hcontrol hstack hkind =>
      have hactor : e.actor? w = some t := by
        simp [Executor.actor?, hcontrol, hstack, hkind, BodyKind.thread?]
      rw [hactor]
      exact ⟨w.sync, .refl _, .finish t w.sync⟩
  | turns hcontrol hstack hbottom h hnext hstack' => exact halike h

/-- A step that is neither one of a condition wait nor grants credits leaves all conditions as they
are, and does not come inside a critical section. -/
theorem condition_cases (h : Advance me w e task)
    (hwait : ∀ wait phase wakeAt, e.control ≠ .condition wait phase wakeAt) :
    (∃ op cv f, e.control = .perform (.mutex op) ∧
        (op = .signal cv ∧ f = Condition.signal ∨ op = .broadcast cv ∧ f = Condition.broadcast) ∧
        (w.sync.condition (w.conditionNamed cv).1).holder = none ∧
        task = ((w.conditionNamed cv).2.updateSync
          (·.updateCondition (w.conditionNamed cv).1 f)).give e.stack .unit) ∨
      (∀ c, task.world.sync.condition c = w.sync.condition c) ∧
        ∀ wait phase wakeAt, task.control = .condition wait phase wakeAt →
          phase.isInside = false := by
  cases h with
  | begins hbase h => exact .inr ⟨(h.moves none).condition, fun _ _ _ hnext => h.not_inside hnext⟩
  | passes hcontrol hstack h hresult => exact .inr ⟨h.condition, by simp⟩
  | retries hcontrol hstack h => exact .inr ⟨h.condition, by simp⟩
  | perseveres hcontrol hstack h => exact .inr ⟨h.condition, by simp⟩
  | takes hcontrol h hacquire =>
      refine .inr ⟨fun c => ?_, by simp⟩
      exact (Sync.condition_of_acquire hacquire c).trans (h.condition c)
  | waits hcontrol h hnext =>
      refine .inr ⟨h.condition, ?_⟩
      rcases hnext with rfl | ⟨ticket, wakeAt, rfl⟩ | ⟨failure, rfl⟩ <;> simp
  | polls hcontrol hstack h =>
      have hbegun : task.Begun w _ none := .launched h
      exact .inr ⟨h.alike.condition, fun _ _ _ hnext => hbegun.not_inside hnext⟩
  | refuses hcontrol hstack => exact .inr ⟨fun _ => rfl, by simp [World.giveFailure]⟩
  | records hcontrol hstack hseat hmoves hlisted howner =>
      exact .inr ⟨hmoves.condition, by simp⟩
  | misses hcontrol hstack hseat hmoves hfree howner => exact .inr ⟨hmoves.condition, by simp⟩
  | releases hcontrol hunlock =>
      exact .inr ⟨Sync.condition_of_unlockInternal hunlock, by simp⟩
  | fails hcontrol herror => exact .inr ⟨fun _ => rfl, by simp [World.giveFailure]⟩
  | continues hcontrol => exact absurd hcontrol (hwait _ _ _)
  | acts hcontrol hmoves howner hgive hstack => exact .inr ⟨hmoves.condition, by simp [hgive]⟩
  | awaits hcontrol => exact .inr ⟨(World.alike_threadAndLock w _ _).condition, by simp⟩
  | @grants op cv f hcontrol hop hfree => exact .inl ⟨op, cv, f, hcontrol, hop, hfree, rfl⟩
  | @ends report result failure run t base hcontrol hstack hkind =>
      exact .inr ⟨Sync.condition_finishThread w.sync t, by simp⟩
  | turns hcontrol hstack hbottom h hnext hstack' =>
      refine .inr ⟨h.condition, ?_⟩
      rcases hnext with ⟨op, hnext⟩ | ⟨result, hnext⟩ <;> simp [hnext]

end Advance

end Session

end RubyRuntime
