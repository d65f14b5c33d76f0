import RubyRuntime.Proofs.Sync.Alike
import RubyRuntime.Session.Machine

/-!
# Steps that leave synchronisation alone

Naming entities, evaluating values, looking at things, and all steps on queues, objects, weak maps
and call stacks change neither who owns a lock nor what a condition counts. Steps on threads do not
either, except that a thread that is detached ends. Steps on objects and weak maps also leave all
queues as they are.
-/
namespace RubyRuntime.Session

namespace World

/-- What ownership and wake-ups depend on is the same in both worlds. -/
def Alike (w w' : World) : Prop :=
  w.sync.Alike w'.sync

variable {w w' w'' : World}

theorem Alike.refl (w : World) : w.Alike w :=
  Sync.Alike.refl w.sync

theorem Alike.trans (h : w.Alike w') (h' : w'.Alike w'') : w.Alike w'' :=
  Sync.Alike.trans h h'

theorem Alike.of_sync_eq (h : w'.sync = w.sync) : w.Alike w' := by
  rw [Alike, h]
  exact Sync.Alike.refl _

theorem alike_updateThread (w : World) (t : ThreadId)
    {f : ThreadRecord Action → ThreadRecord Action}
    (hf : ∀ thread, (f thread).ownedLocks = thread.ownedLocks) : w.Alike (w.updateThread t f) :=
  Sync.Alike.updateThread w.sync t hf

theorem alike_replaceThread (w : World) (t : ThreadId) {thread : ThreadRecord Action}
    (h : thread.ownedLocks = (w.thread t).ownedLocks) : w.Alike (w.updateThread t fun _ => thread)
    where
  owner _ := rfl
  holds _ := rfl
  owned u := by
    simp only [updateThread, updateSync, Sync.thread_updateThread]
    split
    · next hu => rw [h, ← hu]; rfl
    · rfl
  condition _ := rfl

theorem alike_threadNamed (w : World) (name : String) : w.Alike (w.threadNamed name).2 := by
  unfold threadNamed
  split
  · exact Alike.refl w
  · exact Sync.Alike.createThread w.sync _

def threadsNamed (names : List String) (w : World) : List ThreadId × World :=
  names.foldl (fun (ts, w) name =>
    let (t, w) := w.threadNamed name
    (ts ++ [t], w)) ([], w)

/-- What naming a thread keeps is kept by naming several. -/
theorem threadsNamed_keeps {P : World → Prop} (hnamed : ∀ w name, P w → P (threadNamed name w).2)
    (names : List String) (hw : P w) : P (w.threadsNamed names).2 := by
  have hfold : ∀ (names : List String) (ts : List ThreadId) (w : World), P w →
      P (names.foldl (fun (ts, w) name =>
        let (t, w) := World.threadNamed name w
        (ts ++ [t], w)) (ts, w)).2 := by
    intro names
    induction names with
    | nil => exact fun _ _ hw => hw
    | cons name names ih => exact fun _ w hw => ih _ _ (hnamed w name hw)
  exact hfold names [] w hw

theorem alike_threadsNamed (w : World) (names : List String) : w.Alike (w.threadsNamed names).2 :=
  threadsNamed_keeps (fun w' name h => h.trans (alike_threadNamed w' name)) names (.refl w)

theorem alike_newThread (w : World) (name : String) (threadName : Option String) :
    w.Alike (w.newThread name threadName).2 :=
  Sync.Alike.createThread w.sync _

theorem alike_lockNamed (w : World) (name : String) : w.Alike (w.lockNamed name).2 := by
  unfold lockNamed
  split
  · exact Alike.refl w
  · exact Sync.Alike.createLock w.sync

theorem alike_conditionNamed (w : World) (name : String) : w.Alike (w.conditionNamed name).2 := by
  unfold conditionNamed
  split
  · exact Alike.refl w
  · exact Sync.Alike.createCondition w.sync

theorem alike_threadAndLock (w : World) (t m : String) : w.Alike (w.threadAndLock t m).2.2 :=
  (alike_threadNamed w t).trans (alike_lockNamed _ m)

@[simp] theorem sync_queueNamed (w : World) (name : String) :
    (w.queueNamed name).2.sync = w.sync := by
  unfold queueNamed
  split <;> rfl

@[simp] theorem sync_weakMapNamed (w : World) (name : String) :
    (w.weakMapNamed name).2.sync = w.sync := by
  unfold weakMapNamed
  split <;> rfl

@[simp] theorem sync_weakKeyMapNamed (w : World) (name : String) :
    (w.weakKeyMapNamed name).2.sync = w.sync := by
  unfold weakKeyMapNamed
  split <;> rfl

@[simp] theorem sync_evaluate (w : World) (spec : ValueSpec) :
    (w.evaluate spec).2.sync = w.sync := by
  unfold evaluate
  split <;> rfl

@[simp] theorem sync_evaluateAll (w : World) (specs : List ValueSpec) :
    (w.evaluateAll specs).2.sync = w.sync := by
  induction specs generalizing w with
  | nil => rfl
  | cons spec specs ih =>
      rw [evaluateAll, ih, sync_evaluate]

@[simp] theorem sync_evaluate? (w : World) (spec : Option ValueSpec) :
    (w.evaluate? spec).2.sync = w.sync := by
  cases spec with
  | none => rfl
  | some spec => exact sync_evaluate w spec

@[simp] theorem sync_setQueue (w : World) (q : Nat) (queue : UnboundedQueue Value) :
    (w.setQueue q queue).sync = w.sync :=
  rfl

@[simp] theorem sync_setBounded (w : World) (q : Nat) (queue : BoundedQueue Value) :
    (w.setBounded q queue).sync = w.sync :=
  rfl

@[simp] theorem sync_setWeakMap (w : World) (i : Nat) (map : WeakMap) :
    (w.setWeakMap i map).sync = w.sync :=
  rfl

@[simp] theorem sync_setWeakKeyMap (w : World) (i : Nat) (map : WeakKeyMap) :
    (w.setWeakKeyMap i map).sync = w.sync :=
  rfl

@[simp] theorem sync_setSpace (w : World) (i : Nat) (space : ObjectSpace Finalizer) :
    (w.setSpace i space).sync = w.sync :=
  rfl

@[simp] theorem queues_evaluate (w : World) (spec : ValueSpec) :
    (w.evaluate spec).2.queues = w.queues ∧ (w.evaluate spec).2.bounded = w.bounded := by
  unfold evaluate
  split <;> exact ⟨rfl, rfl⟩

@[simp] theorem queues_evaluateAll (w : World) (specs : List ValueSpec) :
    (w.evaluateAll specs).2.queues = w.queues ∧ (w.evaluateAll specs).2.bounded = w.bounded := by
  induction specs generalizing w with
  | nil => exact ⟨rfl, rfl⟩
  | cons spec specs ih => simp [evaluateAll, ih]

@[simp] theorem queues_evaluate? (w : World) (spec : Option ValueSpec) :
    (w.evaluate? spec).2.queues = w.queues ∧ (w.evaluate? spec).2.bounded = w.bounded := by
  cases spec with
  | none => exact ⟨rfl, rfl⟩
  | some spec => exact queues_evaluate w spec

@[simp] theorem queues_weakMapNamed (w : World) (name : String) :
    (w.weakMapNamed name).2.queues = w.queues ∧ (w.weakMapNamed name).2.bounded = w.bounded := by
  unfold weakMapNamed
  split <;> exact ⟨rfl, rfl⟩

@[simp] theorem queues_weakKeyMapNamed (w : World) (name : String) :
    (w.weakKeyMapNamed name).2.queues = w.queues ∧
      (w.weakKeyMapNamed name).2.bounded = w.bounded := by
  unfold weakKeyMapNamed
  split <;> exact ⟨rfl, rfl⟩

@[simp] theorem queues_setWeakMap (w : World) (i : Nat) (map : WeakMap) :
    (w.setWeakMap i map).queues = w.queues ∧ (w.setWeakMap i map).bounded = w.bounded :=
  ⟨rfl, rfl⟩

@[simp] theorem queues_setWeakKeyMap (w : World) (i : Nat) (map : WeakKeyMap) :
    (w.setWeakKeyMap i map).queues = w.queues ∧ (w.setWeakKeyMap i map).bounded = w.bounded :=
  ⟨rfl, rfl⟩

@[simp] theorem queues_setSpace (w : World) (i : Nat) (space : ObjectSpace Finalizer) :
    (w.setSpace i space).queues = w.queues ∧ (w.setSpace i space).bounded = w.bounded :=
  ⟨rfl, rfl⟩

@[simp] theorem world_reply (w : World) (report : Report) : (w.reply report).world = w :=
  rfl

@[simp] theorem world_fail (w : World) (e : Error) : (w.fail e).world = w :=
  rfl

@[simp] theorem world_panics (w : World) (text : String) : (w.panics text).world = w :=
  rfl

@[simp] theorem world_failCapacity (w : World) (failure : BoundedQueue.CapacityFailure) :
    (w.failCapacity failure).world = w := by
  cases failure <;> rfl

theorem alike_mention (w : World) (watched : Watched) : w.Alike (w.mention watched) := by
  cases watched with
  | thread name => exact alike_threadNamed w name
  | mutex name => exact alike_lockNamed w name
  | condition name => exact alike_conditionNamed w name
  | queue name => exact .of_sync_eq (sync_queueNamed w name)
  | bounded name => exact .refl w
  | weakMap name => exact .of_sync_eq (sync_weakMapNamed w name)
  | weakKeyMap name => exact .of_sync_eq (sync_weakKeyMapNamed w name)
  | space => exact .refl w

theorem alike_snapshot (w : World) (held : List ObjectRef) (watched : Watched) :
    w.Alike (w.snapshot held watched).2 := by
  cases watched with
  | thread name => exact alike_threadNamed w name
  | mutex name => exact alike_lockNamed w name
  | condition name => exact alike_conditionNamed w name
  | queue name => exact .of_sync_eq (sync_queueNamed w name)
  | bounded name =>
      unfold snapshot
      dsimp only
      split <;> exact .refl w
  | weakMap name => exact .of_sync_eq (sync_weakMapNamed w name)
  | weakKeyMap name => exact .of_sync_eq (sync_weakKeyMapNamed w name)
  | space => exact .refl w

theorem alike_snapshots (w : World) (held : List ObjectRef) (watched : List Watched) :
    w.Alike (w.snapshots held watched).2 := by
  induction watched generalizing w with
  | nil => exact .refl w
  | cons first rest ih => exact (alike_snapshot w held first).trans (ih _)

end World

theorem ObjectOp.aside_perform (op : ObjectOp) (w : World) :
    (op.perform w).world.sync = w.sync ∧ (op.perform w).world.queues = w.queues ∧
      (op.perform w).world.bounded = w.bounded := by
  cases op <;> simp only [ObjectOp.perform, World.withObject, World.nameObject]
  all_goals try split
  all_goals simp

theorem SpaceOp.aside_perform (op : SpaceOp Body) (scope : Scope) (w : World) :
    (op.perform scope w).world.sync = w.sync ∧ (op.perform scope w).world.queues = w.queues ∧
      (op.perform scope w).world.bounded = w.bounded := by
  have hreply : ∀ (w : World) i v, (w.replyId scope i v).world.sync = w.sync ∧
      (w.replyId scope i v).world.queues = w.queues ∧
        (w.replyId scope i v).world.bounded = w.bounded := by
    intro w i v
    unfold World.replyId
    split <;> exact ⟨rfl, rfl, rfl⟩
  cases op with
  | allocationInfo space obj =>
      simp only [SpaceOp.perform, World.withObject]
      split
      · split <;> simp
      · simp
  | defineFinalizer space v label body =>
      simp only [SpaceOp.perform]
      split
      · split <;> simp
      · simp
  | _ =>
      simp only [SpaceOp.perform, World.withObject, World.changeAllocations]
      try split
      all_goals simp [hreply]

theorem WeakOp.aside_perform (op : WeakOp) (scope : Scope) (w : World) :
    (op.perform scope w).world.sync = w.sync ∧ (op.perform scope w).world.queues = w.queues ∧
      (op.perform scope w).world.bounded = w.bounded := by
  have hdelete : ∀ (w : World) key removed otherwise,
      (w.replyDelete key removed otherwise).world = w := by
    intro w key removed otherwise
    cases removed <;> cases otherwise <;> rfl
  cases op <;> simp only [WeakOp.perform]
  all_goals try split
  all_goals simp [hdelete, World.weakPairs, World.weakKeySize]

theorem ObjectOp.alike_perform (op : ObjectOp) (w : World) : w.Alike (op.perform w).world :=
  .of_sync_eq (op.aside_perform w).1

theorem SpaceOp.alike_perform (op : SpaceOp Body) (scope : Scope) (w : World) :
    w.Alike (op.perform scope w).world :=
  .of_sync_eq (op.aside_perform scope w).1

theorem WeakOp.alike_perform (op : WeakOp) (scope : Scope) (w : World) :
    w.Alike (op.perform scope w).world :=
  .of_sync_eq (op.aside_perform scope w).1

theorem StackOp.alike_perform (op : StackOp) (w : World) : w.Alike (op.perform w).world := by
  cases op with
  | setLocation name location =>
      exact (World.alike_threadNamed w name).trans (World.alike_updateThread _ _ fun _ => rfl)
  | stack name => exact World.alike_threadNamed w name
  | capture name bt omitted pureRescue build => exact World.alike_threadNamed w name
  | ask bt questions =>
      apply World.Alike.of_sync_eq
      simp only [StackOp.perform]
      split
      · split <;> simp
      · rfl
  | formatCurrent name spec exception => exact World.alike_threadNamed w name
  | printable name => exact World.alike_threadNamed w name
  | runtimeInfo => exact .refl w

private theorem sync_withBounded (w : World) (s : String) {f : Nat → Reply}
    (hf : ∀ q, (f q).world.sync = w.sync ∨
      ∃ t, (f q).world.sync = (w.threadNamed t).2.sync) :
    (w.withBounded s f).world.sync = w.sync ∨
      ∃ t, (w.withBounded s f).world.sync = (w.threadNamed t).2.sync := by
  unfold World.withBounded
  split
  · exact hf _
  · exact .inl rfl

/-- A step on a queue creates at most a thread. -/
theorem QueueOp.sync_perform (op : QueueOp) (w : World) :
    (op.perform w).world.sync = w.sync ∨
      ∃ t, (op.perform w).world.sync = (w.threadNamed t).2.sync := by
  cases op with
  | popNow t q =>
      refine .inr ⟨t, ?_⟩
      simp only [QueueOp.perform]
      split <;> simp
  | boundedPushNow t s v | boundedPopNow t s =>
      refine sync_withBounded w s fun q => .inr ⟨t, ?_⟩
      dsimp only
      split <;> simp
  | boundedCapacity s capacity =>
      refine sync_withBounded w s fun q => .inl ?_
      split <;> simp
  | boundedOffer s v | boundedPoll s | boundedClear s | boundedClose s | boundedInfo s =>
      exact sync_withBounded w s fun q => .inl (by simp)
  | _ =>
      left
      simp only [QueueOp.perform]
      try split
      all_goals simp

theorem QueueOp.alike_perform (op : QueueOp) (w : World) : w.Alike (op.perform w).world := by
  rcases op.sync_perform w with hsync | ⟨t, hsync⟩
  · exact .of_sync_eq hsync
  · exact (World.alike_threadNamed w t).trans (.of_sync_eq hsync)

private theorem alike_submit (s : Sync Action) (t : ThreadId) (action : Action) :
    s.Alike (s.submit t action) := by
  have hcounted : s.Alike { s with submitted := s.submitted + 1 } := .of_eq rfl rfl rfl
  exact hcounted.trans (.updateThread _ t (Signal.ownedLocks_deliver _))

private theorem alike_submitIfAlive (s : Sync Action) (t : ThreadId) (action : Action) :
    s.Alike (s.submitIfAlive t action) := by
  unfold Sync.submitIfAlive
  split
  · exact alike_submit s t action
  · exact .refl s

private theorem alike_submitAll (s : Sync Action) (ts : List ThreadId) (action : Action) :
    s.Alike (s.submitAll ts action) := by
  unfold Sync.submitAll
  induction ts generalizing s with
  | nil => exact .refl s
  | cons t ts ih => exact (alike_submitIfAlive s t action).trans (ih _)

/-- Only the end of the executor's own thread releases anything. -/
theorem ThreadOp.alike_perform (op : ThreadOp Body) (scope : Scope) (w : World)
    (h : op = .detach → scope.current = none) : w.Alike (op.perform scope w).1.world := by
  have hchange : ∀ name {f : ThreadRecord Action → ThreadRecord Action},
      (∀ thread, (f thread).ownedLocks = thread.ownedLocks) →
        w.Alike (w.changeThread name f).world :=
    fun name _ hf => (World.alike_threadNamed w name).trans (World.alike_updateThread _ _ hf)
  cases op with
  | create name threadName => exact World.alike_newThread w name threadName
  | attach name => exact World.alike_newThread w name _
  | detach =>
      rw [ThreadOp.perform, h rfl]
      exact .refl w
  | current | list | idsIncrease | stats => exact .refl w
  | info name | debug name => exact World.alike_threadNamed w name
  | interrupt name | setWakeUp name => exact hchange name (Signal.ownedLocks_deliver _)
  | clearWakeUp name => exact hchange name fun _ => rfl
  | takeInterrupt name | takeWakeUp name | checkInterrupted name =>
      exact (World.alike_threadNamed w name).trans (World.alike_updateThread _ _ fun _ => rfl)
  | wakeUp name =>
      refine (World.alike_threadNamed w name).trans ?_
      simp only [ThreadOp.perform]
      split
      · exact World.alike_updateThread _ _ (Signal.ownedLocks_deliver _)
      · exact .refl _
  | raiseIn name e =>
      exact (World.alike_threadNamed w name).trans (alike_submitIfAlive _ _ _)
  | kill name => exact (World.alike_threadNamed w name).trans (alike_submitIfAlive _ _ _)
  | submit name label body => exact (World.alike_threadNamed w name).trans (alike_submit _ _ _)
  | pauseAll label body => exact alike_submitAll _ _ _
  | pauseSome names label body =>
      exact (w.alike_threadsNamed names).trans (alike_submitAll _ _ _)
  | resetStats => exact Sync.Alike.of_eq rfl rfl rfl

end RubyRuntime.Session
