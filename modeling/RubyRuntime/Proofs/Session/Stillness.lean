import RubyRuntime.Proofs.Condition.Steps
import RubyRuntime.Proofs.Sync.Moves

/-!
# Steps that move no action and no item

`World.Still` compares two worlds by the queued actions of all threads, the flags that announce
them, and all queues. Most of what a step can do is still: naming and creating entities, working on
locks, conditions, objects, maps and call stacks, and beginning and ending calls. What is not still
is queueing an action, taking one, and the critical sections of queues. Almost all of it is even
calm: no thread loses an interrupt. And it is quiet but for one thread at most: no other thread
changes its status.
-/
namespace RubyRuntime

namespace Sync

variable {α : Type} {s s' s'' : Sync α}

structure SameActions (s s' : Sync α) : Prop where
  actions : ∀ t, (s'.thread t).actions = (s.thread t).actions
  pending : ∀ t, (s'.thread t).pending = (s.thread t).pending

namespace SameActions

theorem of_thread (h : ∀ t, s'.thread t = s.thread t) : s.SameActions s' :=
  ⟨fun t => by rw [h t], fun t => by rw [h t]⟩

theorem refl (s : Sync α) : s.SameActions s :=
  of_thread fun _ => rfl

theorem trans (h : s.SameActions s') (h' : s'.SameActions s'') : s.SameActions s'' :=
  ⟨fun t => (h'.actions t).trans (h.actions t), fun t => (h'.pending t).trans (h.pending t)⟩

theorem updateThread (s : Sync α) (t : ThreadId) {f : ThreadRecord α → ThreadRecord α}
    (hactions : (f (s.thread t)).actions = (s.thread t).actions)
    (hpending : (f (s.thread t)).pending = (s.thread t).pending) :
    s.SameActions (s.updateThread t f) := by
  constructor <;> intro u <;> rw [thread_updateThread] <;> split
  · next htu => rw [← htu, hactions]
  · rfl
  · next htu => rw [← htu, hpending]
  · rfl

end SameActions

/-- In addition, no thread has lost an interrupt. -/
structure Calm (s s' : Sync α) : Prop extends SameActions s s' where
  interrupted : ∀ t, (s.thread t).interrupted → (s'.thread t).interrupted

def SameStatus (but : Option ThreadId) (s s' : Sync α) : Prop :=
  ∀ t, but ≠ some t → (s'.thread t).status = (s.thread t).status

namespace SameStatus

variable {but : Option ThreadId}

theorem of_thread (h : ∀ t, s'.thread t = s.thread t) : s.SameStatus but s' :=
  fun t _ => by rw [h t]

theorem refl (s : Sync α) : s.SameStatus but s :=
  of_thread fun _ => rfl

theorem trans (h : s.SameStatus but s') (h' : s'.SameStatus but s'') : s.SameStatus but s'' :=
  fun t ht => (h' t ht).trans (h t ht)

theorem of_none (h : s.SameStatus none s') : s.SameStatus but s' :=
  fun t _ => h t (Option.some_ne_none t).symm

theorem updateThread (s : Sync α) (t : ThreadId) {f : ThreadRecord α → ThreadRecord α}
    (hf : but = some t ∨ (f (s.thread t)).status = (s.thread t).status) :
    s.SameStatus but (s.updateThread t f) := by
  intro u hu
  rw [thread_updateThread]
  split
  · next htu =>
    subst htu
    exact hf.resolve_left hu
  · rfl

end SameStatus

/-- No action has been queued or taken, no thread has lost an interrupt, and none has changed its
status, but for one at most. -/
structure Quiet (but : Option ThreadId) (s s' : Sync α) : Prop extends Calm s s' where
  status : s.SameStatus but s'

namespace Quiet

variable {but : Option ThreadId}

theorem of_thread (h : ∀ t, s'.thread t = s.thread t) : s.Quiet none s' where
  toSameActions := .of_thread h
  interrupted t hbefore := by rw [h t]; exact hbefore
  status := .of_thread h

theorem refl (s : Sync α) : s.Quiet none s :=
  of_thread fun _ => rfl

theorem of_none (h : s.Quiet none s') : s.Quiet but s' :=
  ⟨h.toCalm, h.status.of_none⟩

theorem trans (h : s.Quiet but s') (h' : s'.Quiet but s'') : s.Quiet but s'' where
  toSameActions := h.toSameActions.trans h'.toSameActions
  interrupted t hbefore := h'.interrupted t (h.interrupted t hbefore)
  status := h.status.trans h'.status

theorem updateThread (s : Sync α) (t : ThreadId) {f : ThreadRecord α → ThreadRecord α}
    (hactions : (f (s.thread t)).actions = (s.thread t).actions)
    (hpending : (f (s.thread t)).pending = (s.thread t).pending)
    (hinterrupted : (s.thread t).interrupted → (f (s.thread t)).interrupted)
    (hstatus : but = some t ∨ (f (s.thread t)).status = (s.thread t).status) :
    s.Quiet but (s.updateThread t f) := by
  refine ⟨⟨.updateThread s t hactions hpending, fun u hbefore => ?_⟩, .updateThread s t hstatus⟩
  rw [thread_updateThread]
  split
  · next htu =>
    subst htu
    exact hinterrupted hbefore
  · exact hbefore

theorem createThread (s : Sync α) (name : Option String) :
    s.Quiet none (s.createThread name).2 where
  actions := s.field_createThread name (·.actions) rfl
  pending := s.field_createThread name (·.pending) rfl
  interrupted t hbefore := (s.field_createThread name (·.interrupted) rfl t).trans hbefore
  status t _ := s.field_createThread name (·.status) rfl t

theorem of_acquire {t : ThreadId} {l : LockId} (h : s.acquire t l = .acquired s') :
    s.Quiet none s' := by
  obtain ⟨lock, -, rfl⟩ := acquire_eq h
  exact .of_thread fun _ => rfl

theorem of_record? {t : ThreadId} {l : LockId} (h : s.record? t l = some s') :
    s.Quiet none s' := by
  obtain ⟨-, rfl⟩ := record?_eq h
  refine updateThread s t ?_ ?_ ?_ (.inr ?_) <;> unfold ThreadRecord.addOwned <;> split <;>
    first | rfl | exact id

theorem of_unlockInternal {t : ThreadId} {l : LockId} (h : s.unlockInternal t l = .ok s') :
    s.Quiet none s' := by
  obtain ⟨lock, -, rfl⟩ := unlockInternal_eq h
  have hlock : s.Quiet none (s.updateLock l fun _ => lock) := .of_thread fun _ => rfl
  split
  · exact hlock.trans (updateThread _ t rfl rfl id (.inr rfl))
  · exact hlock

theorem finishThread (s : Sync α) (t : ThreadId) : s.Quiet (some t) (s.finishThread t) := by
  have hdead : s.Quiet (some t) (s.updateThread t fun thread => { thread with status := .dead }) :=
    updateThread s t rfl rfl id (.inl rfl)
  have hempty := hdead.trans (updateThread _ t
    (f := fun thread => { thread with ownedLocks := [] }) rfl rfl id (.inr rfl))
  refine hempty.trans (of_none (.of_thread fun u => ?_))
  exact thread_foldl_releaseFully _ _ _ _

/-- A step of a wait is quiet unless the wait is back from a slice and consumes an interrupt of its
thread, which it does only to poll. -/
theorem of_steps {now me : Nat} {wait : ConditionWait} {phase : WaitPhase}
    {after : WaitPhase × Sync α} (h : wait.Steps now me s phase after) :
    s.Quiet none after.2 ∨ ∃ holds, phase = .awake holds ∧ after = (.polling holds,
      (s.updateCondition wait.condition Condition.exit).updateThread wait.thread
        (·.dropInterrupt)) := by
  cases h with
  | heeds => exact .inr ⟨_, rfl, rfl⟩
  | releases =>
      have hlock : s.Quiet none (s.updateLock wait.lock (·.releaseFully wait.thread)) :=
        .of_thread fun _ => rfl
      exact .inl (hlock.trans (updateThread _ wait.thread rfl rfl id (.inr rfl)))
  | wakes => exact .inl (updateThread s wait.thread rfl rfl id (.inr rfl))
  | _ => exact .inl (.of_thread fun _ => rfl)

end Quiet

variable {now me : Nat} {wait : ConditionWait} {phase : WaitPhase} {after : WaitPhase × Sync α}

theorem SameActions.of_steps (h : wait.Steps now me s phase after) : s.SameActions after.2 := by
  rcases Quiet.of_steps h with hquiet | ⟨holds, -, rfl⟩
  · exact hquiet.toSameActions
  · have hexit : s.SameActions (s.updateCondition wait.condition Condition.exit) :=
      .of_thread fun _ => rfl
    exact hexit.trans (.updateThread _ wait.thread rfl rfl)

theorem SameStatus.of_steps (h : wait.Steps now me s phase after) : s.SameStatus none after.2 := by
  rcases Quiet.of_steps h with hquiet | ⟨holds, -, rfl⟩
  · exact hquiet.status
  · have hexit : s.SameStatus none (s.updateCondition wait.condition Condition.exit) :=
      .of_thread fun _ => rfl
    exact hexit.trans (.updateThread _ wait.thread (.inr rfl))

end Sync

/-- Whether the sender of a signal has nothing left to queue or to announce. -/
def Signal.isSilent {α : Type} : Signal α → Bool
  | submitting _ | marking => false
  | waking | interrupting | entering | notifying | leaving | delivered => true

theorem Signal.actions_step {α : Type} {signal : Signal α} (h : signal.isSilent)
    (thread : ThreadRecord α) :
    (signal.step thread).1.isSilent ∧ (signal.step thread).2.actions = thread.actions ∧
      (signal.step thread).2.pending = thread.pending := by
  cases signal with
  | submitting | marking => cases h
  | entering =>
      simp only [step]
      split <;> exact ⟨rfl, rfl, rfl⟩
  | _ => exact ⟨rfl, rfl, rfl⟩

private theorem Signal.actions_run {α : Type} {signal : Signal α} (n : Nat) (h : signal.isSilent)
    (thread : ThreadRecord α) :
    (run n signal thread).actions = thread.actions ∧
      (run n signal thread).pending = thread.pending := by
  induction n generalizing signal thread with
  | zero => exact ⟨rfl, rfl⟩
  | succ n ih =>
      obtain ⟨hnext, hactions, hpending⟩ := actions_step h thread
      obtain ⟨hactions', hpending'⟩ := ih hnext (signal.step thread).2
      exact ⟨hactions'.trans hactions, hpending'.trans hpending⟩

theorem Signal.actions_deliver {α : Type} {signal : Signal α} (h : signal.isSilent)
    (thread : ThreadRecord α) :
    (signal.deliver thread).actions = thread.actions ∧
      (signal.deliver thread).pending = thread.pending :=
  actions_run 6 h thread

theorem Signal.status_deliver {α : Type} (signal : Signal α) (thread : ThreadRecord α) :
    (signal.deliver thread).status = thread.status := by
  refine field_deliver (·.status) (fun signal thread => ?_) signal thread
  cases signal with
  | entering =>
      simp only [Signal.step]
      split <;> rfl
  | _ => rfl

theorem Signal.keeps_interrupted_run {α : Type} (n : Nat) (signal : Signal α)
    (thread : ThreadRecord α) (h : thread.interrupted) : (run n signal thread).interrupted := by
  induction n generalizing signal thread with
  | zero => exact h
  | succ n ih =>
      apply ih
      cases signal with
      | interrupting => rfl
      | entering =>
          dsimp only [Signal.step]
          split <;> exact h
      | _ => exact h

theorem Signal.keeps_interrupted {α : Type} (signal : Signal α) (thread : ThreadRecord α)
    (h : thread.interrupted) : (signal.deliver thread).interrupted :=
  keeps_interrupted_run 6 signal thread h

theorem Signal.actions_submit {α : Type} (action : α) (thread : ThreadRecord α) :
    ((Signal.submitting action).deliver thread).actions = thread.actions ++ [action] ∧
      ((Signal.submitting action).deliver thread).pending = true :=
  -- After two steps the action is queued and announced.
  have hsilent : (Signal.interrupting : Signal α).isSilent := rfl
  actions_run 4 hsilent (thread.pushAction action).markPending

theorem Parking.actions_settle {α : Type} (now : Nat) (deadline : Option Nat) (parking : Parking)
    (thread : ThreadRecord α) :
    (parking.settle now deadline thread).2.actions = thread.actions ∧
      (parking.settle now deadline thread).2.pending = thread.pending := by
  have hstep : ∀ (parking : Parking) (thread : ThreadRecord α),
      (parking.step now deadline thread).2.actions = thread.actions ∧
        (parking.step now deadline thread).2.pending = thread.pending := by
    intro parking thread
    cases parking with
    | leaving interrupted | finished interrupted => exact ⟨rfl, rfl⟩
    | _ =>
        simp only [Parking.step]
        split <;> exact ⟨rfl, rfl⟩
  exact ⟨field_settle (·.actions) (fun parking thread => (hstep parking thread).1) parking thread,
    field_settle (·.pending) (fun parking thread => (hstep parking thread).2) parking thread⟩

namespace Session

namespace World

structure SameQueues (w w' : World) : Prop where
  queue : ∀ q, w'.queue q = w.queue q
  bounded : ∀ q, w'.boundedQueue q = w.boundedQueue q

structure Still (w w' : World) : Prop extends SameQueues w w' where
  sync : w.sync.SameActions w'.sync

structure Calm (w w' : World) : Prop extends SameQueues w w' where
  sync : w.sync.Calm w'.sync

def SameStatus (but : Option ThreadId) (w w' : World) : Prop :=
  w.sync.SameStatus but w'.sync

/-- No queue has changed, no action has been queued or taken, no thread has lost an interrupt, and
none has changed its status, but for one at most. -/
structure Quiet (but : Option ThreadId) (w w' : World) : Prop extends SameQueues w w' where
  sync : w.sync.Quiet but w'.sync

variable {w w' w'' : World} {but : Option ThreadId}

theorem SameQueues.refl (w : World) : w.SameQueues w :=
  ⟨fun _ => rfl, fun _ => rfl⟩

theorem SameQueues.trans (h : w.SameQueues w') (h' : w'.SameQueues w'') : w.SameQueues w'' where
  queue q := (h'.queue q).trans (h.queue q)
  bounded q := (h'.bounded q).trans (h.bounded q)

theorem Calm.still (h : w.Calm w') : w.Still w' :=
  ⟨h.toSameQueues, h.sync.toSameActions⟩

theorem Still.of_sync {sync : Sync Action} (h : w.sync.SameActions sync) :
    w.Still { w with sync } :=
  ⟨⟨fun _ => rfl, fun _ => rfl⟩, h⟩

theorem Still.refl (w : World) : w.Still w :=
  .of_sync (.refl w.sync)

theorem Still.trans (h : w.Still w') (h' : w'.Still w'') : w.Still w'' where
  toSameQueues := h.toSameQueues.trans h'.toSameQueues
  sync := h.sync.trans h'.sync

theorem SameStatus.refl (w : World) : w.SameStatus but w :=
  Sync.SameStatus.refl w.sync

theorem SameStatus.trans (h : w.SameStatus but w') (h' : w'.SameStatus but w'') :
    w.SameStatus but w'' :=
  Sync.SameStatus.trans h h'

theorem SameStatus.of_sync_eq (h : w'.sync = w.sync) : w.SameStatus but w' := by
  rw [SameStatus, h]
  exact Sync.SameStatus.refl _

namespace Quiet

theorem calm (h : w.Quiet but w') : w.Calm w' :=
  ⟨h.toSameQueues, h.sync.toCalm⟩

theorem still (h : w.Quiet but w') : w.Still w' :=
  h.calm.still

theorem sameStatus (h : w.Quiet but w') : w.SameStatus but w' :=
  h.sync.status

theorem of_none (h : w.Quiet none w') : w.Quiet but w' :=
  ⟨h.toSameQueues, h.sync.of_none⟩

theorem of_eq (h : w'.sync = w.sync ∧ w'.queues = w.queues ∧ w'.bounded = w.bounded) :
    w.Quiet none w' where
  sync := h.1 ▸ .refl w.sync
  queue q := by rw [World.queue, World.queue, h.2.1]
  bounded q := by rw [World.boundedQueue, World.boundedQueue, h.2.2]

theorem of_sync {sync : Sync Action} (h : w.sync.Quiet but sync) : w.Quiet but { w with sync } :=
  ⟨⟨fun _ => rfl, fun _ => rfl⟩, h⟩

theorem refl (w : World) : w.Quiet none w :=
  .of_sync (.refl w.sync)

theorem trans (h : w.Quiet but w') (h' : w'.Quiet but w'') : w.Quiet but w'' where
  toSameQueues := h.toSameQueues.trans h'.toSameQueues
  sync := h.sync.trans h'.sync

end Quiet

theorem still_updateThread (w : World) (t : ThreadId)
    {f : ThreadRecord Action → ThreadRecord Action}
    (hf : (f (w.thread t)).actions = (w.thread t).actions ∧
      (f (w.thread t)).pending = (w.thread t).pending) : w.Still (w.updateThread t f) :=
  .of_sync (.updateThread w.sync t hf.1 hf.2)

theorem sameStatus_updateThread (w : World) (t : ThreadId)
    {f : ThreadRecord Action → ThreadRecord Action}
    (hf : but = some t ∨ (f (w.thread t)).status = (w.thread t).status) :
    w.SameStatus but (w.updateThread t f) :=
  Sync.SameStatus.updateThread w.sync t hf

theorem quiet_updateThread (w : World) (t : ThreadId)
    {f : ThreadRecord Action → ThreadRecord Action}
    (hf : (f (w.thread t)).actions = (w.thread t).actions ∧
      (f (w.thread t)).pending = (w.thread t).pending)
    (hinterrupted : (w.thread t).interrupted → (f (w.thread t)).interrupted)
    (hstatus : but = some t ∨ (f (w.thread t)).status = (w.thread t).status) :
    w.Quiet but (w.updateThread t f) :=
  .of_sync (.updateThread w.sync t hf.1 hf.2 hinterrupted hstatus)

theorem quiet_newThread (w : World) (name : String) (threadName : Option String) :
    w.Quiet none (w.newThread name threadName).2 :=
  ⟨⟨fun _ => rfl, fun _ => rfl⟩, .createThread w.sync threadName⟩

theorem quiet_threadNamed (w : World) (name : String) : w.Quiet none (w.threadNamed name).2 := by
  unfold threadNamed
  split
  · exact .refl w
  · exact quiet_newThread w name _

theorem quiet_threadsNamed (w : World) (names : List String) :
    w.Quiet none (w.threadsNamed names).2 :=
  threadsNamed_keeps (fun w' name h => h.trans (quiet_threadNamed w' name)) names (.refl w)

theorem quiet_lockNamed (w : World) (name : String) : w.Quiet none (w.lockNamed name).2 := by
  unfold lockNamed
  split
  · exact .refl w
  · exact ⟨⟨fun _ => rfl, fun _ => rfl⟩, .of_thread fun _ => rfl⟩

theorem quiet_conditionNamed (w : World) (name : String) :
    w.Quiet none (w.conditionNamed name).2 := by
  unfold conditionNamed
  split
  · exact .refl w
  · exact ⟨⟨fun _ => rfl, fun _ => rfl⟩, .of_thread fun _ => rfl⟩

theorem quiet_threadAndLock (w : World) (t m : String) : w.Quiet none (w.threadAndLock t m).2.2 :=
  (quiet_threadNamed w t).trans (quiet_lockNamed _ m)

theorem quiet_queueNamed (w : World) (name : String) : w.Quiet none (w.queueNamed name).2 := by
  unfold queueNamed
  split
  · exact .refl w
  · exact ⟨⟨getD_append_fresh ({} : UnboundedQueue Value) w.queues, fun _ => rfl⟩, .refl w.sync⟩

theorem quiet_mention (w : World) (watched : Watched) : w.Quiet none (w.mention watched) := by
  cases watched with
  | thread name => exact quiet_threadNamed w name
  | mutex name => exact quiet_lockNamed w name
  | condition name => exact quiet_conditionNamed w name
  | queue name => exact quiet_queueNamed w name
  | weakMap name | weakKeyMap name => exact .of_eq (by simp [mention])
  | bounded name | space => exact .refl w

theorem quiet_snapshot (w : World) (held : List ObjectRef) (watched : Watched) :
    w.Quiet none (w.snapshot held watched).2 := by
  cases watched with
  | thread name => exact quiet_threadNamed w name
  | mutex name => exact quiet_lockNamed w name
  | condition name => exact quiet_conditionNamed w name
  | queue name => exact quiet_queueNamed w name
  | bounded name =>
      simp only [snapshot]
      split <;> exact .refl w
  | weakMap name | weakKeyMap name =>
      exact .of_eq (by simp [snapshot, weakPairs, weakKeySize])
  | space => exact .refl w

theorem quiet_snapshots (w : World) (held : List ObjectRef) (watched : List Watched) :
    w.Quiet none (w.snapshots held watched).2 := by
  induction watched generalizing w with
  | nil => exact .refl w
  | cons first rest ih => exact (quiet_snapshot w held first).trans (ih _)

end World

theorem ObjectOp.quiet_perform (op : ObjectOp) (w : World) : w.Quiet none (op.perform w).world :=
  .of_eq (op.aside_perform w)

theorem SpaceOp.quiet_perform (op : SpaceOp Body) (scope : Scope) (w : World) :
    w.Quiet none (op.perform scope w).world :=
  .of_eq (op.aside_perform scope w)

theorem WeakOp.quiet_perform (op : WeakOp) (scope : Scope) (w : World) :
    w.Quiet none (op.perform scope w).world :=
  .of_eq (op.aside_perform scope w)

theorem StackOp.quiet_perform (op : StackOp) (w : World) : w.Quiet none (op.perform w).world := by
  cases op with
  | setLocation name location =>
      exact (World.quiet_threadNamed w name).trans
        (World.quiet_updateThread _ _ ⟨rfl, rfl⟩ id (.inr rfl))
  | stack name => exact World.quiet_threadNamed w name
  | capture name bt omitted pureRescue build =>
      exact (World.quiet_threadNamed w name).trans (.of_eq ⟨rfl, rfl, rfl⟩)
  | ask bt questions =>
      apply World.Quiet.of_eq
      simp only [StackOp.perform]
      split
      · split <;> simp
      · simp
  | formatCurrent name spec exception => exact World.quiet_threadNamed w name
  | printable name => exact World.quiet_threadNamed w name
  | runtimeInfo => exact .refl w

def ThreadOp.isSubmission : ThreadOp Body → Bool
  | .raiseIn _ _ | .kill _ | .submit _ _ _ | .pauseAll _ _ | .pauseSome _ _ _ => true
  | _ => false

def ThreadOp.disarmed? : ThreadOp Body → Option String
  | .takeInterrupt name | .checkInterrupted name => some name
  | _ => none

def ThreadOp.ended? (scope : Scope) : ThreadOp Body → Option ThreadId
  | .detach => scope.current
  | _ => none

theorem ThreadOp.quiet_perform (op : ThreadOp Body) (scope : Scope) (w : World)
    (h : op.isSubmission = false) (hdisarmed : op.disarmed? = none) :
    w.Quiet (op.ended? scope) (op.perform scope w).1.world := by
  have hnamed := w.quiet_threadNamed
  have hdeliver : ∀ (w : World) t (signal : Signal Action), signal.isSilent →
      w.Quiet none (w.updateThread t signal.deliver) :=
    fun w t signal hsilent => w.quiet_updateThread t (Signal.actions_deliver hsilent _)
      (signal.keeps_interrupted _) (.inr (signal.status_deliver _))
  cases op with
  | raiseIn | kill | submit | pauseAll | pauseSome => cases h
  | takeInterrupt | checkInterrupted => cases hdisarmed
  | create name threadName => exact w.quiet_newThread name threadName
  | attach name => exact w.quiet_newThread name _
  | detach =>
      simp only [ThreadOp.perform, ThreadOp.ended?]
      split
      · next t hcurrent =>
        rw [hcurrent]
        exact .of_sync (.finishThread w.sync t)
      · exact .of_none (.refl w)
  | current | list | idsIncrease | stats => exact .refl w
  | info name | debug name => exact hnamed name
  | interrupt name => exact (hnamed name).trans (hdeliver _ _ .interrupting rfl)
  | setWakeUp name => exact (hnamed name).trans (hdeliver _ _ .waking rfl)
  | clearWakeUp name | takeWakeUp name =>
      exact (hnamed name).trans (World.quiet_updateThread _ _ ⟨rfl, rfl⟩ id (.inr rfl))
  | wakeUp name =>
      refine (hnamed name).trans ?_
      simp only [ThreadOp.perform]
      split
      · exact hdeliver _ _ .waking rfl
      · exact .refl _
  | resetStats => exact .of_sync (.of_thread fun _ => rfl)

theorem ThreadOp.still_perform (op : ThreadOp Body) (scope : Scope) (w : World)
    (h : op.isSubmission = false) : w.Still (op.perform scope w).1.world := by
  cases hdisarmed : op.disarmed? with
  | none => exact (op.quiet_perform scope w h hdisarmed).still
  | some name =>
      have hnamed := (w.quiet_threadNamed name).still
      cases op with
      | takeInterrupt | checkInterrupted =>
          cases hdisarmed
          exact hnamed.trans (World.still_updateThread _ _ ⟨rfl, rfl⟩)
      | _ => cases hdisarmed

end Session

end RubyRuntime
