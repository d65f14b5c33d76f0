import RubyRuntime.Proofs.Mutex.Reacquisition
import RubyRuntime.Proofs.Mutex.Recursion

/-!
# Running a block with a mutex

A call that runs a block with a mutex takes the mutex, runs the block, and drops its hold however
the block ends, unless the block has given the mutex away. The main result follows such a call
through any run: when the block is run and when not, what the call returns, and that its thread does
not have the mutex any more when the block has left it with one hold at most.
-/
namespace RubyRuntime

def Lock.unlockError? (t : ThreadId) (lock : Lock) : Option Error :=
  match lock.owner with
  | none => some Cause.unlockFree.error
  | some owner => if owner = t then none else some Cause.unlockForeign.error

theorem Lock.unlockError?_eq_none {t : ThreadId} {lock : Lock} :
    lock.unlockError? t = none ↔ lock.owner = some t := by
  unfold unlockError?
  split
  · next hfree => simp [hfree]
  · next owner howner => simp [howner]

theorem Sync.checkOwned_eq {α : Type} (s : Sync α) (t : ThreadId) (l : LockId) :
    s.checkOwned t l = match (s.lock l).unlockError? t with
      | none => .ok ()
      | some err => .error err := by
  unfold checkOwned isHeld Lock.isHeldBy Lock.isLocked Lock.unlockError?
  cases howner : (s.lock l).owner with
  | none => rfl
  | some owner =>
      by_cases ht : owner = t
      · simp [ht]
      · simp [ht]

namespace Session

/-- What is seen of a call that runs a block with a mutex. -/
inductive GuardEvent where
  | refused (failure : Failure)
  | begins (block : Body)
  | ends (outcome : Outcome) (lock : Lock)

inductive GuardStage where
  | rejected
  | acquiring
  | refused (failure : Failure)
  | running
  | leaving (outcome : Outcome) (lock : Lock)
  | returned (outcome : Outcome) (lock : Lock)

/-- What a call returns to the thread `t` whose block has come to an outcome and left the mutex as
`lock`: the failure of the block, or else that of unlocking the mutex, or else the result. -/
def guardResult (t : ThreadId) (lock : Lock) : Outcome → Outcome
  | .error failure => .error failure
  | .ok y =>
    match lock.unlockError? t with
    | some err => .error (.error err)
    | none => .ok y

theorem guardResult_of_held {t : ThreadId} {lock : Lock} (h : lock.owner = some t)
    (outcome : Outcome) : guardResult t lock outcome = outcome := by
  cases outcome with
  | error failure => rfl
  | ok y => rw [guardResult, Lock.unlockError?_eq_none.mpr h]

namespace GuardStage

def events (block : Body) : GuardStage → List GuardEvent
  | rejected | acquiring => []
  | refused failure => [.refused failure]
  | running => [.begins block]
  | leaving outcome lock | returned outcome lock => [.begins block, .ends outcome lock]

def outcome? (t : ThreadId) : GuardStage → Option Outcome
  | refused failure => some (.error failure)
  | returned outcome lock => some (guardResult t lock outcome)
  | _ => none

def IsRejection : GuardStage → Prop
  | rejected => True
  | refused failure => failure = .error Cause.recursiveLocking.error
  | _ => False

end GuardStage

inductive Unlocks (t : ThreadId) (l : LockId) (outcome : Outcome) (lock : Lock) (s : Sync Action) :
    Control → Prop where
  | releasing (hheld : lock.owner = some t) (howner : (s.lock l).owner = some t)
    (hholds : (s.lock l).holds = lock.holds) : Unlocks t l outcome lock s (.releasing t l)
  | released {y : Yield} (hheld : lock.owner = some t)
    (hfree : lock.holdCount t ≤ 1 → (s.lock l).owner ≠ some t) :
    Unlocks t l outcome lock s (.give (.ok y))
  | failed {err : Error} (hheld : lock.owner ≠ some t) (howner : (s.lock l).owner ≠ some t)
    (hresult : guardResult t lock outcome = .error (.error err)) :
    Unlocks t l outcome lock s (.give (.error (.error err)))

/-- A task is in a stage of the call that was made on `base` to run a block with the mutex `l`. -/
def Task.InGuard (t : ThreadId) (l : LockId) (block : Body) (base : List Frame)
    (stage : GuardStage) (task : Task) : Prop :=
  match stage with
  | .rejected => task.control = .give (.error (.error Cause.recursiveLocking.error)) ∧
      ∃ below, task.stack = .entering t l block .synchronize :: below ∧
        below.map Frame.shape = base.map Frame.shape
  | .acquiring => Above (.entering t l block .synchronize) base task.stack
  | .refused failure => task.control = .give (.error failure) ∧
      task.stack.map Frame.shape = base.map Frame.shape
  | .running => Above (.guarding t l .synchronize) base task.stack
  | .leaving outcome lock => Unlocks t l outcome lock task.world.sync task.control ∧
      ∃ below, task.stack = .unlocking outcome :: below ∧
        below.map Frame.shape = base.map Frame.shape
  | .returned outcome lock => task.control = .give (guardResult t lock outcome) ∧
      task.stack.map Frame.shape = base.map Frame.shape ∧
      (lock.holdCount t ≤ 1 → (task.world.sync.lock l).owner ≠ some t)

section Tasks

variable {w : World} {t : ThreadId} {l : LockId} {block : Body} {base below : List Frame}
  {outcome : Outcome} {lock : Lock}

theorem World.inGuard_startGuarded (w : World) (base : List Frame) (t : ThreadId) (l : LockId)
    (block : Body) :
    ((w.sync.lock l).owner = some t ∧ (w.startGuarded base t l block .synchronize).world = w ∧
        (w.startGuarded base t l block .synchronize).InGuard t l block base .rejected) ∨
      (w.sync.lock l).owner ≠ some t ∧
        (w.startGuarded base t l block .synchronize).InGuard t l block base .acquiring := by
  unfold startGuarded startMutex
  by_cases howner : (w.sync.lock l).owner = some t
  · rw [if_pos (Sync.isHeld_iff.mpr howner)]
    exact .inl ⟨howner, rfl, rfl, base, rfl, rfl⟩
  · rw [if_neg (mt Sync.isHeld_iff.mp howner)]
    have hbegun := w.begun_startLock (.entering t l block .synchronize :: base) t l
    exact .inr ⟨howner, hbegun.extends.above (by simp)⟩

theorem World.world_guardOver (w : World) (stack : List Frame) (t : ThreadId) (l : LockId)
    (guard : GuardKind) (outcome : Outcome) : (w.guardOver stack t l guard outcome).world = w := by
  have hunlock : ∀ stack, (w.startUnlock stack t l).world = w := by
    intro stack
    unfold startUnlock
    split <;> rfl
  unfold guardOver
  split
  · exact hunlock _
  · exact hunlock _
  · split <;> rfl

theorem World.inGuard_guardOver (w : World) (t : ThreadId) (l : LockId) (block : Body)
    (outcome : Outcome) (hbelow : below.map Frame.shape = base.map Frame.shape) :
    ∃ stage, (stage = .leaving outcome (w.sync.lock l) ∨
        stage = .returned outcome (w.sync.lock l)) ∧
      (w.guardOver below t l .synchronize outcome).InGuard t l block base stage := by
  by_cases howner : (w.sync.lock l).owner = some t
  · have hreleasing : w.guardOver below t l .synchronize outcome =
        ⟨w, .releasing t l, .unlocking outcome :: below⟩ := by
      have hheld : w.sync.isHeld t l := Sync.isHeld_iff.mpr howner
      cases outcome with
      | ok y => simp [guardOver, startUnlock, Sync.checkOwned, hheld]
      | error failure => simp [guardOver, hheld]
    rw [hreleasing]
    exact ⟨_, .inl rfl, .releasing howner howner rfl, below, rfl, hbelow⟩
  · cases outcome with
    | ok y =>
        obtain ⟨err, herr⟩ : ∃ err, (w.sync.lock l).unlockError? t = some err := by
          rw [← Option.ne_none_iff_exists', Ne, Lock.unlockError?_eq_none]
          exact howner
        have hfailing : w.guardOver below t l .synchronize (.ok y) =
            w.giveError (.unlocking (.ok y) :: below) err := by
          simp [guardOver, startUnlock, Sync.checkOwned_eq, herr]
        rw [hfailing]
        refine ⟨_, .inl rfl, .failed howner howner ?_, below, rfl, hbelow⟩
        rw [guardResult, herr]
    | error failure =>
        have hgiving : w.guardOver below t l .synchronize (.error failure) =
            w.giveFailure below failure := by
          have hheld : w.sync.isHeld t l = false := by
            rw [Bool.eq_false_iff, Ne, Sync.isHeld_iff]
            exact howner
          simp [guardOver, hheld, giveFailure]
        rw [hgiving]
        exact ⟨_, .inr rfl, rfl, hbelow, fun _ => howner⟩

theorem World.release_of_owner (hsane : (w.sync.lock l).Sane)
    (howner : (w.sync.lock l).owner = some t) (stack : List Frame) :
    ∃ sync, w.release stack t l = { w with sync }.give stack .unit ∧
      ((w.sync.lock l).holds ≤ 1 → (sync.lock l).owner = none) := by
  obtain ⟨sync, hunlock⟩ : ∃ sync, w.sync.unlockInternal t l = .ok sync := by
    simp [Sync.unlockInternal, Lock.unlock, howner]
  refine ⟨sync, by rw [release, hunlock], fun hsingle => ?_⟩
  obtain ⟨sync', hunlock', hfree, -⟩ := Sync.unlockInternal_of_single hsane hsingle howner
  rw [hunlock] at hunlock'
  cases hunlock'
  exact hfree

end Tasks

namespace Machine

variable {t : ThreadId} {l : LockId} {block : Body} {base : List Frame} {me : Nat} {m : Machine}
  {e : Executor} {stage : GuardStage}

/-- What the next step of executor `i` shows of the call that executor `me` has made with `height`
frames on its stack to run a block with the mutex `l`. -/
def seen (l : LockId) (me height : Nat) (m : Machine) (i : Nat) : List GuardEvent :=
  if i = me then
    match m.executors[me]? with
    | some e =>
      match e.control, e.above height with
      | .give (.error failure), [.entering _ _ _ _] => [.refused failure]
      | .give (.ok _), [.entering _ _ block _] => [.begins block]
      | .give outcome, [.guarding _ _ _] => [.ends outcome (m.world.sync.lock l)]
      | _, _ => []
    | none => []
  else []

def InGuard (t : ThreadId) (l : LockId) (block : Body) (base : List Frame) (me : Nat)
    (stage : GuardStage) (m : Machine) : Prop :=
  ∃ e, m.executors[me]? = some e ∧
    Task.InGuard t l block base stage ⟨m.world, e.control, e.stack⟩

private theorem seen_self (he : m.executors[me]? = some e) (l : LockId) (height : Nat) :
    m.seen l me height me =
      match e.control, e.above height with
      | .give (.error failure), [.entering _ _ _ _] => [.refused failure]
      | .give (.ok _), [.entering _ _ block _] => [.begins block]
      | .give outcome, [.guarding _ _ _] => [.ends outcome (m.world.sync.lock l)]
      | _, _ => [] := by
  simp [seen, he]

private theorem seen_of_busy (he : m.executors[me]? = some e) (l : LockId) {height : Nat}
    (hbusy : m.returned? me (height + 1) = none) : m.seen l me height me = [] := by
  have hover : ∀ outcome, e.control = .give outcome → (e.above height).length ≠ 1 := by
    intro outcome hcontrol hone
    have hlength : min (e.stack.length - height) e.stack.length = 1 := by
      simpa [Executor.above] using hone
    have hnone : e.above (height + 1) = [] := by
      have hzero : e.stack.length - (height + 1) = 0 := by omega
      rw [Executor.above, hzero, List.take_zero]
    simp [returned?, he, hcontrol, hnone] at hbusy
  rw [seen_self he]
  split
  · next hcontrol habove => exact absurd (by rw [habove]; rfl) (hover _ hcontrol)
  · next hcontrol habove => exact absurd (by rw [habove]; rfl) (hover _ hcontrol)
  · next hcontrol habove => exact absurd (by rw [habove]; rfl) (hover _ hcontrol)
  · rfl

private theorem inGuard_put {task : Task} (he : m.executors[me]? = some e)
    (current : Option ThreadId) (h : task.InGuard t l block base stage) :
    (m.put me current task).InGuard t l block base me stage :=
  ⟨_, executors_put he current task, h⟩

def Proceeds (t : ThreadId) (l : LockId) (block : Body) (base : List Frame) (me : Nat)
    (stage : GuardStage) (m : Machine) : Prop :=
  ∃ stage' : GuardStage, (stage.IsRejection → stage'.IsRejection) ∧
    (m.step me).InGuard t l block base me stage' ∧
    stage'.events block = stage.events block ++ m.seen l me base.length me

private theorem step_rejected (h : m.InGuard t l block base me .rejected) :
    (m.step me).world = m.world ∧
      (m.step me).InGuard t l block base me (.refused (.error Cause.recursiveLocking.error)) ∧
      m.seen l me base.length me = [.refused (.error Cause.recursiveLocking.error)] := by
  obtain ⟨e, he, hcontrol, below, hstack, hbelow⟩ := h
  simp only at hcontrol hstack
  have hframes : e.stack = [.entering t l block .synchronize] ++ below := hstack
  rw [step_give he hcontrol hstack, seen_self he, hcontrol, above_eq hframes hbelow]
  exact ⟨rfl, inGuard_put he _ ⟨rfl, hbelow⟩, rfl⟩

private theorem step_acquiring (h : m.InGuard t l block base me .acquiring) :
    m.Proceeds t l block base me .acquiring := by
  obtain ⟨e, he, habove⟩ := h
  rcases handed_or_above he rfl habove with
    ⟨outcome, below, -, hcontrol, hstack, hbelow⟩ | ⟨hbusy, e', he', habove'⟩
  · have hframes : e.stack = [.entering t l block .synchronize] ++ below := hstack
    have hseen := seen_self he l base.length
    rw [hcontrol, above_eq hframes hbelow] at hseen
    cases outcome with
    | error failure =>
        refine ⟨.refused failure, nofun, ?_, hseen.symm⟩
        rw [step_give he hcontrol hstack]
        exact inGuard_put he _ ⟨rfl, hbelow⟩
    | ok y =>
        refine ⟨.running, nofun, ?_, hseen.symm⟩
        rw [step_give he hcontrol hstack]
        have hlaunched : (m.world.startBody (.guarding t l .synchronize :: below)
            (.callback [("in", .text "sync")]) block).Launched m.world
              (.guarding t l .synchronize :: below) :=
          m.world.launched_startBody _ block (by simp)
        exact inGuard_put he _ (hlaunched.above (by simp) hbelow)
  · refine ⟨.acquiring, id, ⟨e', he', habove'⟩, ?_⟩
    rw [seen_of_busy he l hbusy]
    rfl

private theorem seen_of_over {outcome : Outcome} (he : m.executors[me]? = some e)
    (hcontrol : e.control = .give outcome)
    (hstack : e.stack.map Frame.shape = base.map Frame.shape) (l : LockId) :
    m.seen l me base.length me = [] := by
  have hframes : e.stack = [] ++ e.stack := rfl
  rw [seen_self he, hcontrol, above_eq hframes hstack]
  cases outcome <;> rfl

private theorem step_running (h : m.InGuard t l block base me .running) :
    m.Proceeds t l block base me .running := by
  obtain ⟨e, he, habove⟩ := h
  rcases handed_or_above he rfl habove with
    ⟨outcome, below, -, hcontrol, hstack, hbelow⟩ | ⟨hbusy, e', he', habove'⟩
  · have hframes : e.stack = [.guarding t l .synchronize] ++ below := hstack
    have hseen := seen_self he l base.length
    rw [hcontrol, above_eq hframes hbelow] at hseen
    obtain ⟨stage, hstage, hguard⟩ := m.world.inGuard_guardOver t l block outcome hbelow
    refine ⟨stage, nofun, ?_, ?_⟩
    · rw [step_give he hcontrol hstack]
      exact inGuard_put he _ hguard
    · rw [hseen]
      rcases hstage with rfl | rfl <;> cases outcome <;> rfl
  · refine ⟨.running, id, ⟨e', he', habove'⟩, ?_⟩
    rw [seen_of_busy he l hbusy]
    rfl

theorem world_step_of_ends {height : Nat} {outcome : Outcome} {lock : Lock}
    (h : m.seen l me height me = [.ends outcome lock]) : (m.step me).world = m.world := by
  cases he : m.executors[me]? with
  | none => simp [seen, he] at h
  | some e =>
      rw [seen_self he] at h
      split at h
      · cases h
      · cases h
      · next given t k guard hcontrol habove =>
        have hstack : e.above height ++ e.stack.drop (e.stack.length - height) = e.stack :=
          List.take_append_drop _ _
        rw [habove] at hstack
        rw [step_give he hcontrol hstack.symm]
        exact m.world.world_guardOver _ t k guard given
      · cases h

private theorem step_released {outcome : Outcome} {lock : Lock} {y : Yield} {below : List Frame}
    (he : m.executors[me]? = some e) (hcontrol : e.control = .give (.ok y))
    (hstack : e.stack = .unlocking outcome :: below)
    (hbelow : below.map Frame.shape = base.map Frame.shape) (hheld : lock.owner = some t)
    (hfree : lock.holdCount t ≤ 1 → (m.world.sync.lock l).owner ≠ some t) :
    (m.step me).InGuard t l block base me (.returned outcome lock) := by
  rw [step_give he hcontrol hstack]
  refine inGuard_put he _ ⟨?_, hbelow, hfree⟩
  rw [guardResult_of_held hheld]
  rfl

/-- A block is left by dropping the hold, if there is one, and returning the result. A mutex of
anybody else is left alone. -/
private theorem step_leaving {outcome : Outcome} {lock : Lock} (htidy : m.Tidy)
    (h : m.InGuard t l block base me (.leaving outcome lock)) :
    m.seen l me base.length me = [] ∧
      (lock.owner ≠ some t → (m.step me).world = m.world) ∧
      ((m.step me).InGuard t l block base me (.returned outcome lock) ∨
        (m.step me).InGuard t l block base me (.leaving outcome lock) ∧
          ((m.step me).step me).InGuard t l block base me (.returned outcome lock)) := by
  obtain ⟨e, he, hunlocks, below, hstack, hbelow⟩ := h
  simp only at hunlocks hstack
  have hframes : e.stack = [.unlocking outcome] ++ below := hstack
  have hseen : m.seen l me base.length me = [] := by
    rw [seen_self he, above_eq hframes hbelow]
    cases e.control with
    | give given => cases given <;> rfl
    | _ => rfl
  refine ⟨hseen, ?_⟩
  generalize hcontrol : e.control = control at hunlocks
  cases hunlocks with
  | releasing hheld howner hholds =>
      -- Nobody has added a hold since the block ended, so this one may be the last.
      obtain ⟨sync, hrelease, hfree⟩ := World.release_of_owner (htidy.sane l) howner e.stack
      have hstep : m.step me = m.put me e.current ({ m.world with sync }.give e.stack .unit) := by
        simp [step, he, hcontrol, hrelease]
      have hfree' : lock.holdCount t ≤ 1 → (sync.lock l).owner ≠ some t := by
        intro hsingle
        rw [Lock.holdCount, if_pos (Lock.isHeldBy_iff.mpr hheld), ← hholds] at hsingle
        simp [hfree hsingle]
      rw [hstep]
      refine ⟨absurd hheld, .inr ⟨?_, ?_⟩⟩
      · exact inGuard_put he _ ⟨.released hheld hfree', below, hstack, hbelow⟩
      · exact step_released (executors_put he _ _) rfl hstack hbelow hheld hfree'
  | released hheld hfree =>
      exact ⟨absurd hheld, .inl (step_released he hcontrol hstack hbelow hheld hfree)⟩
  | failed hheld howner hresult =>
      rw [step_give he hcontrol hstack]
      refine ⟨fun _ => rfl, .inl (inGuard_put he _ ⟨?_, hbelow, fun _ => howner⟩)⟩
      rw [hresult]
      rfl

/-- What is started when the block begins is the block of the call, with its own steps and its own
ending. -/
theorem InGuard.launches {b : Body} (h : m.InGuard t l block base me stage) (htidy : m.Tidy)
    (hseen : m.seen l me base.length me = [.begins b]) :
    b = block ∧ m.Launches me base.length m.world
      { kind := .callback [("in", .text "sync")], remaining := block.steps, ending := block.ending }
      (.guarding t l .synchronize) := by
  cases stage with
  | rejected =>
      obtain ⟨-, -, hrefused⟩ := step_rejected h
      rw [hrefused] at hseen
      cases hseen
  | acquiring =>
      obtain ⟨e, he, habove⟩ := h
      rcases handed_or_above he rfl habove with
        ⟨outcome, below, -, hcontrol, hstack, hbelow⟩ | ⟨hbusy, -⟩
      · have hframes : e.stack = [.entering t l block .synchronize] ++ below := hstack
        rw [seen_self he, hcontrol, above_eq hframes hbelow] at hseen
        cases outcome with
        | error failure => cases hseen
        | ok y =>
            cases hseen
            exact ⟨rfl, e, below, he, length_of_shape hbelow, step_give he hcontrol hstack⟩
      · rw [seen_of_busy he l hbusy] at hseen
        cases hseen
  | running =>
      obtain ⟨stage, -, -, hevents⟩ := step_running h
      rw [hseen] at hevents
      cases stage <;> simp [GuardStage.events] at hevents
  | refused failure =>
      obtain ⟨e, he, hcontrol, hstack⟩ := h
      rw [seen_of_over he hcontrol hstack l] at hseen
      cases hseen
  | leaving outcome lock =>
      rw [(step_leaving htidy h).1] at hseen
      cases hseen
  | returned outcome lock =>
      obtain ⟨e, he, hcontrol, hstack, -⟩ := h
      rw [seen_of_over he hcontrol hstack l] at hseen
      cases hseen

theorem InGuard.returned (h : m.InGuard t l block base me stage) :
    m.returned? me base.length = stage.outcome? t := by
  obtain ⟨e, he, h⟩ := h
  cases stage with
  | rejected =>
      obtain ⟨-, below, hstack, hbelow⟩ := h
      exact returned?_of_frame [] he hstack hbelow
  | acquiring => exact returned?_of_above he h
  | refused failure => exact returned?_of_base he h.2 h.1
  | running => exact returned?_of_above he h
  | leaving outcome lock =>
      obtain ⟨-, below, hstack, hbelow⟩ := h
      exact returned?_of_frame [] he hstack hbelow
  | returned outcome lock => exact returned?_of_base he h.2.1 h.1

theorem InGuard.step_self (h : m.InGuard t l block base me stage) (htidy : m.Tidy)
    (hopen : m.returned? me base.length = none) : m.Proceeds t l block base me stage := by
  rw [h.returned] at hopen
  cases stage with
  | rejected =>
      obtain ⟨-, hrefused, hseen⟩ := step_rejected h
      exact ⟨.refused (.error Cause.recursiveLocking.error), fun _ => rfl, hrefused, hseen.symm⟩
  | acquiring => exact step_acquiring h
  | refused failure => cases hopen
  | running => exact step_running h
  | leaving outcome lock =>
      obtain ⟨hseen, -, hreturned | ⟨hleaving, -⟩⟩ := step_leaving htidy h
      · exact ⟨_, nofun, hreturned, by rw [hseen]; rfl⟩
      · exact ⟨_, nofun, hleaving, by rw [hseen]; rfl⟩
  | returned outcome lock => cases hopen

theorem InGuard.step_of_ne {i : Nat} (h : m.InGuard t l block base me stage) (hi : i ≠ me)
    (hactor : m.actor? i ≠ some t) : (m.step i).InGuard t l block base me stage := by
  obtain ⟨e, he, h⟩ := h
  refine ⟨e, executors_step_of_ne (Ne.symm hi) he, ?_⟩
  have hforeign : (m.world.sync.lock l).owner ≠ some t →
      ((m.step i).world.sync.lock l).owner ≠ some t :=
    keeps_foreign hactor
  cases stage with
  | rejected | acquiring | refused failure | running => exact h
  | leaving outcome lock =>
      -- The lock stays with the thread or away from it, whichever it is.
      refine ⟨?_, h.2⟩
      obtain ⟨hunlocks, -⟩ := h
      generalize e.control = control at hunlocks
      cases hunlocks with
      | releasing hheld howner hholds =>
          obtain ⟨howner', hholds'⟩ := keeps_lock hactor howner
          exact .releasing hheld howner' (hholds'.trans hholds)
      | released hheld hfree => exact .released hheld fun hsingle => hforeign (hfree hsingle)
      | failed hheld howner hresult => exact .failed hheld (hforeign howner) hresult
  | returned outcome lock => exact ⟨h.1, h.2.1, fun hsingle => hforeign (h.2.2 hsingle)⟩

theorem Tidy.tick (h : m.Tidy) (millis : Nat) : (m.tick millis).Tidy :=
  ⟨h.nodup, h.sane⟩

theorem Tidy.follow (h : m.Tidy) (moves : List Move) : (m.follow moves).Tidy :=
  follow_always moves (fun _ me h => h.step me) (fun _ millis h => h.tick millis) h

/-- A run carries the call from stage to stage, and all that is seen of it is known from the stage
that it has come to. -/
theorem InGuard.follow {later : List Move} (h : m.InGuard t l block base me stage)
    (htidy : m.Tidy) (hrun : m.along (isDuring t me base.length) later) :
    ∃ stage' : GuardStage, (stage.IsRejection → stage'.IsRejection) ∧
      (m.follow later).InGuard t l block base me stage' ∧
      stage'.events block = stage.events block ++ m.log (seen l me base.length) later := by
  induction later generalizing m stage with
  | nil => exact ⟨stage, id, h, by simp [log]⟩
  | cons move later ih =>
      cases move with
      | tick millis =>
          obtain ⟨e, he, h⟩ := h
          have hguard : (m.tick millis).InGuard t l block base me stage :=
            ⟨e, he, by cases stage <;> exact h⟩
          exact ih hguard (htidy.tick millis) hrun
      | step i =>
          simp only [along, Bool.and_eq_true] at hrun
          obtain ⟨hduring, hrun⟩ := hrun
          rw [isDuring] at hduring
          obtain ⟨stage', hrejects, hstage', hevents⟩ : ∃ stage' : GuardStage,
              (stage.IsRejection → stage'.IsRejection) ∧
              (m.step i).InGuard t l block base me stage' ∧
              stage'.events block = stage.events block ++ m.seen l me base.length i := by
            split at hduring
            · next hi =>
              subst hi
              exact h.step_self htidy (by simpa using hduring)
            · next hi =>
              refine ⟨stage, id, h.step_of_ne hi (by simpa using hduring), ?_⟩
              simp [seen, hi]
          obtain ⟨last, hlast, hguard, hlog⟩ := ih hstage' (htidy.step i) hrun
          refine ⟨last, hlast ∘ hrejects, hguard, ?_⟩
          rw [hlog, hevents, log, List.append_assoc]

theorem listed_follow {moves : List Move} (hrun : m.along (spares l) moves)
    (h : l ∈ (m.world.thread t).ownedLocks → (m.world.sync.lock l).owner = some t) :
    l ∈ ((m.follow moves).world.thread t).ownedLocks →
      ((m.follow moves).world.sync.lock l).owner = some t := by
  refine follow_keeps (P := fun m => l ∈ (m.world.thread t).ownedLocks →
    (m.world.sync.lock l).owner = some t) ?_ (fun _ _ h => h) hrun h
  intro m i hspares h
  obtain ⟨s, halike, hmove⟩ := m.lockMove_step i
  refine hmove.listed (by simpa [spares] using hspares) ?_
  rw [halike.owned t, halike.owner l]
  exact h

private theorem step_synchronize {thread mutex : String} (he : m.executors[me]? = some e)
    (hcall : e.control = .perform (.call (.synchronize thread mutex block))) :
    let t := (m.world.threadNamed thread).1
    let l := (m.world.threadAndLock thread mutex).2.1
    let base := .showing .shown :: e.stack
    ((m.world.sync.lock l).owner = some t ∧
        (m.step me).world = (m.world.threadAndLock thread mutex).2.2 ∧
        (m.step me).InGuard t l block base me .rejected) ∨
      (m.world.sync.lock l).owner ≠ some t ∧ (m.step me).InGuard t l block base me .acquiring := by
  intro t l base
  have hstep : m.step me = m.put me e.current
      ((m.world.threadAndLock thread mutex).2.2.startGuarded base t l block .synchronize) := by
    simp only [step, he, hcall]
    rfl
  rw [hstep, ← (m.world.undisturbed_threadAndLock thread mutex).lock l]
  rcases (m.world.threadAndLock thread mutex).2.2.inGuard_startGuarded base t l block with
    ⟨howner, hworld, hguard⟩ | ⟨howner, hguard⟩
  · exact .inl ⟨howner, hworld, inGuard_put he _ hguard⟩
  · exact .inr ⟨howner, inGuard_put he _ hguard⟩

end Machine

/-- A call that runs a block with a mutex, followed through any run during which nobody else works
on locks for its thread. All that is seen of the call, and what it returns, is known from the stage
that it has come to: the block is run once, as it was given, if the mutex was taken, and not at all
otherwise. If the thread holds the mutex already, the call fails and changes nothing. Once the block
has ended, two more steps are enough for the call to return the failure of the block, or else that
of unlocking the mutex, or else the result of the block. If the block has left the mutex with one
hold of the thread at most, the thread then does not own the mutex, and the mutex is not on its list
unless somebody has worked on the bare lock. A mutex that the block has not left to the thread stays
as it is. -/
theorem synchronize_releases (script : Script) (moves later : List Move) (me : Nat) (e : Executor)
    (thread mutex : String) (block : Body) :
    let m := script.start.follow moves
    let t := (m.world.threadNamed thread).1
    let l := (m.world.threadAndLock thread mutex).2.1
    let height := e.stack.length + 1
    let begun := m.step me
    let last := begun.follow later
    m.executors[me]? = some e →
    e.control = .perform (.call (.synchronize thread mutex block)) →
    begun.along (Machine.isDuring t me height) later →
    ∃ stage : GuardStage,
      begun.log (Machine.seen l me height) later = stage.events block ∧
      last.returned? me height = stage.outcome? t ∧
      (∀ b, last.seen l me height me = [.begins b] → b = block ∧ last.Launches me height last.world
        { kind := .callback [("in", .text "sync")], remaining := block.steps,
          ending := block.ending } (.guarding t l .synchronize)) ∧
      ((m.world.sync.lock l).owner = some t →
        stage.IsRejection ∧ begun.world = (m.world.threadAndLock thread mutex).2.2 ∧
        m.world.sync.Undisturbed begun.world.sync ∧
        (stage = .rejected → (last.step me).world = last.world ∧
          (last.step me).returned? me height =
            some (.error (.error Cause.recursiveLocking.error)))) ∧
      ∀ outcome lock,
        (stage = .leaving outcome lock → ∃ n ≤ 2,
          (last.follow (List.replicate n (.step me))).returned? me height =
            some (guardResult t lock outcome)) ∧
        (stage = .returned outcome lock → lock.holdCount t ≤ 1 →
          (last.world.sync.lock l).owner ≠ some t ∧
          (script.start.along (Machine.spares l) moves →
            m.along (Machine.spares l) (.step me :: later) →
            l ∉ (last.world.thread t).ownedLocks)) ∧
        (lock.owner ≠ some t →
          last.seen l me height me = [.ends outcome lock] ∨ stage = .leaving outcome lock →
          (last.step me).world = last.world) := by
  intro m t l height begun last he hcall hrun
  have htidy : m.Tidy := (Machine.Tidy.start script).follow moves
  have hlast : last.Tidy := (htidy.step me).follow later
  obtain ⟨first, hheld, hfirst, hnothing⟩ : ∃ first : GuardStage,
      ((m.world.sync.lock l).owner = some t → first.IsRejection ∧
        begun.world = (m.world.threadAndLock thread mutex).2.2) ∧
      begun.InGuard t l block (.showing .shown :: e.stack) me first ∧ first.events block = [] := by
    rcases Machine.step_synchronize he hcall with ⟨-, hworld, hguard⟩ | ⟨howner, hguard⟩
    · exact ⟨.rejected, fun _ => ⟨trivial, hworld⟩, hguard, rfl⟩
    · exact ⟨.acquiring, fun hheld => absurd hheld howner, hguard, rfl⟩
  obtain ⟨stage, hrejects, hguard, hlog⟩ := hfirst.follow (htidy.step me) hrun
  rw [hnothing, List.nil_append] at hlog
  refine ⟨stage, hlog.symm, hguard.returned, fun b => hguard.launches hlast, ?_, ?_⟩
  · intro howner
    obtain ⟨hrejected, hworld⟩ := hheld howner
    refine ⟨hrejects hrejected, hworld, ?_, ?_⟩
    · rw [hworld]
      exact m.world.undisturbed_threadAndLock thread mutex
    · rintro rfl
      obtain ⟨hsame, hrefused, -⟩ := Machine.step_rejected hguard
      exact ⟨hsame, hrefused.returned⟩
  · intro outcome lock
    refine ⟨?_, ?_, ?_⟩
    · rintro rfl
      obtain ⟨-, -, hreturned | ⟨-, hreturned⟩⟩ := Machine.step_leaving hlast hguard
      · exact ⟨1, by decide, hreturned.returned⟩
      · exact ⟨2, by decide, hreturned.returned⟩
    · rintro rfl hsingle
      obtain ⟨x, -, -, -, hfree⟩ := hguard
      refine ⟨hfree hsingle, fun hbefore hspares hmem => hfree hsingle ?_⟩
      have hnone : (script.start.world.thread t).ownedLocks = [] := script.alike_start.owned t
      have hlisted : l ∈ (m.world.thread t).ownedLocks → (m.world.sync.lock l).owner = some t := by
        apply Machine.listed_follow hbefore
        rw [hnone]
        nofun
      have hend := Machine.listed_follow hspares hlisted
      exact hend hmem
    · rintro hforeign (hends | rfl)
      · exact Machine.world_step_of_ends hends
      · exact (Machine.step_leaving hlast hguard).2.1 hforeign

/-- A block unlocks its mutex, and another thread takes it before the block ends. -/
def givenAway : Script where
  options := {}
  watched := []
  steps := [
    .mk false (.call (.spawn "other" none
      (.mk [.mk false (.call (.lock "other" "m"))] none none .null))),
    .mk false (.call (.synchronize "main" "m"
      (.mk [.mk false (.mutex (.unlock "main" "m"))] none none .null)))]

def beforeGiving : List Move :=
  List.replicate 3 (.step 0)

def givingMoves : List Move :=
  List.replicate 4 (.step 0) ++ List.replicate 2 (.step 1) ++ List.replicate 5 (.step 0)

private theorem eq_error_of_result? {outcome? : Option Outcome} {err : Error}
    (h : outcome?.bind Outcome.result? = some (some err)) :
    outcome? = some (.error (.error err)) := by
  obtain ⟨outcome, rfl, houtcome⟩ := Option.bind_eq_some_iff.mp h
  rcases outcome.cases with ⟨y, rfl⟩ | ⟨err', rfl⟩ | ⟨failure, rfl, hfailure⟩
  · cases houtcome
  · cases houtcome
    rfl
  · cases failure with
    | error err' => exact absurd rfl (hfailure err')
    | _ => cases houtcome

theorem synchronize_releases_givenAway :
    let m := givenAway.start.follow beforeGiving
    let last := (m.step 0).follow givingMoves
    (m.step 0).along (Machine.isDuring 1 0 3) givingMoves ∧
      last.returned? 0 3 = some (.error (.error Cause.unlockForeign.error)) ∧
      (∃ outcome lock, (m.step 0).log (Machine.seen 0 0 3) givingMoves =
          [.begins (.mk [.mk false (.mutex (.unlock "main" "m"))] none none .null),
            .ends outcome lock] ∧
        guardResult 1 lock outcome = .error (.error Cause.unlockForeign.error)) ∧
      (last.world.sync.lock 0).owner = some 0 ∧ 0 ∉ (last.world.thread 1).ownedLocks := by
  intro m last
  have hrun : (m.step 0).along (Machine.isDuring 1 0 3) givingMoves := by decide +kernel
  have hreturned : last.returned? 0 3 = some (.error (.error Cause.unlockForeign.error)) :=
    eq_error_of_result? (by decide +kernel)
  have hthread : (m.world.threadNamed "main").1 = 1 := by decide +kernel
  have hlock : (m.world.threadAndLock "main" "m").2.1 = 0 := by decide +kernel
  obtain ⟨e, he, hcall, hheight⟩ : ∃ e, m.executors[0]? = some e ∧
      e.control = .perform (.call (.synchronize "main" "m"
        (.mk [.mk false (.mutex (.unlock "main" "m"))] none none .null))) ∧ e.stack.length = 2 :=
    ⟨_, rfl, rfl, rfl⟩
  have hends : (m.step 0).log (Machine.seen 0 0 3) givingMoves |>.any fun
      | .ends _ lock => decide (lock.holdCount 1 ≤ 1)
      | _ => false := by decide +kernel
  obtain ⟨stage, hlog, houtcome, -, -, hafter⟩ := synchronize_releases givenAway
    beforeGiving givingMoves 0 e "main" "m" _ he hcall (hthread ▸ hheight ▸ hrun)
  simp only [m] at hthread hlock
  simp only [hthread, hlock, hheight] at hlog houtcome hafter
  have hseen : (m.step 0).log (Machine.seen 0 0 3) givingMoves = stage.events _ := hlog
  have hresult := hreturned.symm.trans houtcome
  rw [hseen] at hends
  cases stage with
  | returned outcome lock =>
      have hsingle : lock.holdCount 1 ≤ 1 := by simpa [GuardStage.events] using hends
      obtain ⟨-, hfree, -⟩ := hafter outcome lock
      exact ⟨hrun, hreturned, ⟨outcome, lock, hseen, (Option.some.inj hresult).symm⟩,
        by decide +kernel, (hfree rfl hsingle).2 (by decide +kernel) (by decide +kernel)⟩
  | refused failure => cases hends
  | rejected | acquiring | running | leaving outcome lock => cases hresult

end Session

end RubyRuntime
