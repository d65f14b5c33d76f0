import RubyRuntime.Proofs.ObjectSpace.Histories
import RubyRuntime.Proofs.Queue.Dealings
import RubyRuntime.Proofs.Weak.Tables

/-!
# What operations do to histories

The operations of a session on weak maps and on queues, its calls and its primitives lead on from a
history of registrations by what they ask for about finalizers, and only a run of finalizers asks
for anything. They put nothing into queues that has died, and refer to nothing that has.
-/
namespace RubyRuntime

namespace WeakKeyMap

variable {held : ObjectRef → Bool} {map map' : WeakKeyMap} {key value : Value}
  {entry : EqlKey × KeyEntry}

private theorem mem_of_mem_store {k : EqlKey} {stored : KeyEntry}
    {table : List (EqlKey × KeyEntry)} (h : entry ∈ store k stored table) :
    entry.2 = stored ∨ entry ∈ table := by
  induction table with
  | nil => exact .inl (congrArg Prod.snd (List.mem_singleton.mp h))
  | cons first rest ih =>
      obtain ⟨k', old⟩ := first
      rw [store] at h
      split at h
      · rcases List.mem_cons.mp h with rfl | h
        · exact .inl rfl
        · exact .inr (List.mem_cons_of_mem _ h)
      · rcases List.mem_cons.mp h with rfl | h
        · exact .inr List.mem_cons_self
        · exact (ih h).imp_right (List.mem_cons_of_mem _)

theorem mem_of_mem_set (h : map.set held key value = .ok map') (hentry : entry ∈ map'.entries) :
    entry.2.value = value ∨ entry ∈ map.entries := by
  cases key with
  | object o =>
      obtain ⟨stored, heq, -⟩ := set_object held map o value
      cases heq.symm.trans h
      rcases mem_of_mem_store hentry with hstored | hentry
      · exact .inl (congrArg KeyEntry.value hstored)
      · exact .inr ((sublist_sweep held map).subset hentry)
  | _ => cases h

theorem mem_of_mem_delete (h : entry ∈ (map.delete held key).2.entries) : entry ∈ map.entries := by
  unfold delete at h
  split at h
  · exact h
  · refine (sublist_sweep held map).subset ?_
    dsimp only at h
    split at h
    · exact List.mem_of_mem_filter h
    · exact h

end WeakKeyMap

namespace Session

section Operations

variable {reach : Reach} {i : Nat} {history : RegistrationRun Finalizer} {w w' : World}
  {requests : List (RegistrationEvent Finalizer)} {held : List ObjectRef}

theorem World.Comes.setWeakKeyMap (h : w.Comes reach i history requests held) {j : Nat}
    {map : WeakKeyMap} (hmap : ∀ entry ∈ map.entries,
      (∀ o, entry.2.value = .object o → o ∈ held) ∨ entry ∈ (w.weakKeyMap j).entries) :
    (w.setWeakKeyMap j map).Comes reach i history requests held := by
  refine h.same fun history hfollows hheld => { hfollows with values := fun map' hmap' => ?_ }
  rcases List.mem_or_eq_of_mem_set hmap' with hmap' | rfl
  · exact hfollows.values map' hmap'
  · intro entry hentry
    rcases hmap entry hentry with hvalue | hold
    · cases heq : entry.2.value with
      | object o => exact (hheld o (hvalue o heq)).2
      | _ => trivial
    · unfold World.weakKeyMap at hold
      cases hj : w.weakKeyMaps[j]? with
      | none =>
          rw [hj] at hold
          cases hold
      | some old =>
          rw [hj] at hold
          exact hfollows.values old (List.mem_of_getElem? hj) entry hold

theorem World.Comes.weakKeyMapNamed (h : w.Comes reach i history requests held) (name : String) :
    (w.weakKeyMapNamed name).2.Comes reach i history requests held := by
  unfold World.weakKeyMapNamed
  split
  · exact h
  · refine h.same fun history hfollows _ => { hfollows with values := fun map hmap => ?_ }
    rcases List.mem_append.mp hmap with hmap | hmap
    · exact hfollows.values map hmap
    · cases List.mem_singleton.mp hmap
      exact List.forall_mem_nil _

theorem World.Comes.evaluate? (h : w.Comes reach i history requests held)
    (spec : Option ValueSpec) : (w.evaluate? spec).2.Comes reach i history requests
      (objectsOf (w.evaluate? spec).1.toList ++ held) := by
  cases spec with
  | none => exact h
  | some spec => exact h.evaluate spec

theorem World.Comes.evaluateAll (h : w.Comes reach i history requests held)
    (specs : List ValueSpec) : (w.evaluateAll specs).2.Comes reach i history requests [] := by
  induction specs generalizing w held with
  | nil => exact h.release
  | cons spec specs ih => exact ih (h.evaluate spec)

theorem World.Comes.weakKeySize (h : w.Comes reach i history requests held)
    (held' : List ObjectRef) (j : Nat) :
    (w.weakKeySize held' j).2.Comes reach i history requests held :=
  h.setWeakKeyMap fun _ hentry => .inr ((WeakKeyMap.sublist_sweep _ _).subset hentry)

theorem World.Comes.snapshots (h : w.Comes reach i history requests held)
    (held' : List ObjectRef) (watched : List Watched) :
    (w.snapshots held' watched).2.Comes reach i history requests held := by
  induction watched generalizing w with
  | nil => exact h
  | cons first rest ih =>
      refine ih ?_
      cases first with
      | thread name => exact h.of_store (w.store_threadNamed name)
      | mutex name => exact h.of_store (w.store_lockNamed name)
      | condition name => exact h.of_store (w.store_conditionNamed name)
      | queue name => exact h.of_store (w.store_queueNamed name)
      | bounded name =>
          dsimp only
          split <;> exact h
      | weakMap name => exact h.of_store (w.store_weakMapNamed name)
      | weakKeyMap name => exact (h.weakKeyMapNamed name).weakKeySize held' _
      | space => exact h

theorem mem_objectsOf {v : Value} {o : ObjectRef} : o ∈ objectsOf [v] ↔ v = .object o := by
  cases v <;> simp [objectsOf, Value.asObject?, eq_comm]

theorem World.world_replyDelete (w : World) (key : Value) (removed otherwise : Option Value) :
    (w.replyDelete key removed otherwise).world = w := by
  cases removed <;> cases otherwise <;> rfl

theorem WeakOp.comes_perform (op : WeakOp) (scope : Scope) (h : w.store.Follows reach i history) :
    (op.perform scope w).world.Comes reach i history [] [] := by
  have hmap : ∀ name, (w.weakMapNamed name).2.Comes reach i history [] [] :=
    fun name => (World.Comes.start h).of_store (w.store_weakMapNamed name)
  have hkeyMap : ∀ name, (w.weakKeyMapNamed name).2.Comes reach i history [] [] :=
    (World.Comes.start h).weakKeyMapNamed
  cases op with
  | set wm k v =>
      exact (((hmap wm).evaluate k).evaluate v).release.of_store rfl
  | get wm k | isKey wm k => exact ((hmap wm).evaluate k).release
  | delete wm k otherwise =>
      simp only [WeakOp.perform, World.world_replyDelete]
      exact (((hmap wm).evaluate k).evaluate? otherwise).release.of_store rfl
  | info wm => exact (hmap wm).of_store rfl
  | keySet wk k v =>
      have hevaluated := ((hkeyMap wk).evaluate k).evaluate v
      simp only [WeakOp.perform]
      split
      · next map hset =>
        refine (hevaluated.setWeakKeyMap fun entry hentry => ?_).release
        refine (WeakKeyMap.mem_of_mem_set hset hentry).imp_left fun hvalue o ho => ?_
        exact List.mem_append_left _ (mem_objectsOf.mpr (hvalue.symm.trans ho))
      · exact hevaluated.release
  | keyGet wk k | keyGetKey wk k | keyIsKey wk k => exact ((hkeyMap wk).evaluate k).release
  | keyDelete wk k otherwise =>
      simp only [WeakOp.perform, World.world_replyDelete]
      refine ((((hkeyMap wk).evaluate k).evaluate? otherwise).setWeakKeyMap ?_).release
      exact fun entry hentry => .inr (WeakKeyMap.mem_of_mem_delete hentry)
  | keyClear wk => exact (hkeyMap wk).setWeakKeyMap (List.forall_mem_nil _)
  | keyInfo wk => exact ((hkeyMap wk).weakKeySize _ _).weakKeySize _ _

theorem QueueOp.comes_perform (op : QueueOp) (h : w.store.Follows reach i history)
    (hnew : reach.queues w.bounded.length) :
    (op.perform w).world.Comes reach i history [] [] := by
  have hstart := World.Comes.start h
  have hqueue : ∀ name, (w.queueNamed name).2.Comes reach i history [] [] :=
    fun name => hstart.of_store (w.store_queueNamed name)
  have hbounded : ∀ {s : String} {f : Nat → Reply},
      (∀ q, (f q).world.Comes reach i history [] []) →
        (w.withBounded s f).world.Comes reach i history [] [] := by
    intro s f hf
    unfold World.withBounded
    split
    · exact hf _
    · exact hstart
  have hthread : ∀ name, (w.threadNamed name).2.Comes reach i history [] [] :=
    fun name => hstart.of_store (w.store_threadNamed name)
  have hevaluated : ∀ {w : World} {v}, w.Comes reach i history [] [] →
      (w.evaluate v).2.Comes reach i history [] [] := fun h => (h.evaluate _).release
  cases op with
  | add q v | push q v =>
      simp only [QueueOp.perform]
      split <;> exact hevaluated (hqueue q)
  | addAll q vs =>
      simp only [QueueOp.perform]
      split <;> exact (hqueue q).evaluateAll vs
  | offer q v => exact hevaluated (hqueue q)
  | poll q | clear q | close q | info q => exact hqueue q
  | popNow t q =>
      have hnamed : ((w.threadNamed t).2.queueNamed q).2.Comes reach i history [] [] :=
        (hthread t).of_store (World.store_queueNamed _ q)
      simp only [QueueOp.perform]
      split <;> exact hnamed
  | boundedNew s capacity =>
      simp only [QueueOp.perform]
      split
      · refine hstart.same fun history hfollows _ => { hfollows with bounded := ?_ }
        intro entry hentry
        rcases List.mem_cons.mp hentry with rfl | hentry
        · exact hnew
        · exact hfollows.bounded entry (List.mem_of_mem_filter hentry)
      · next failure _ => cases failure <;> exact hstart
  | boundedCapacity s capacity =>
      refine hbounded fun q => ?_
      split
      · exact hstart
      · next failure _ => cases failure <;> exact hstart
  | boundedOffer s v => exact hbounded fun q => hevaluated hstart
  | boundedPoll s | boundedClear s | boundedClose s | boundedInfo s =>
      exact hbounded fun q => hstart
  | boundedPushNow t s v =>
      refine hbounded fun q => ?_
      dsimp only
      split <;> exact hevaluated (hthread t)
  | boundedPopNow t s =>
      refine hbounded fun q => ?_
      dsimp only
      split <;> exact hthread t

/-- A task leads on from a history by the given requests, and refers to nothing but what may be
referred to. -/
structure Task.Comes (reach : Reach) (i : Nat) (history : RegistrationRun Finalizer)
    (requests : List (RegistrationEvent Finalizer)) (task : Task) : Prop where
  world : task.world.Comes reach i history requests []
  control : task.control.Within reach
  stack : StackWithin reach task.stack

variable {stack : List Frame} {task : Task}

theorem Task.Stays.comes (h : task.Stays reach w') (hw : w'.Comes reach i history requests held) :
    task.Comes reach i history requests :=
  ⟨(hw.of_store h.store).release, h.control, h.stack⟩

theorem comes_afterReply {reply : Reply} (h : reply.world.Comes reach i history requests [])
    (hstack : StackWithin reach stack) :
    (afterReply stack reply).Comes reach i history requests := by
  refine ⟨h, ?_, ?_⟩
  · cases hresult : reply.result <;>
      simp [afterReply, hresult, Control.Within, Outcome.Within, Except.map]
  · simp only [afterReply]
    induction reply.events generalizing stack with
    | nil => exact hstack
    | cons event events ih => exact ih (hstack.reportEvent event)

theorem within_evaluate (h : w.Comes reach i history requests held) (spec : ValueSpec) :
    (w.evaluate spec).1.Within reach := by
  obtain ⟨events, -, -, -, hheld⟩ := h.evaluate spec
  cases hvalue : (w.evaluate spec).1 with
  | object o =>
      exact (hheld o (List.mem_append_left _ (mem_objectsOf.mpr hvalue))).2
  | _ => trivial

/-- The items of an iteration are alive when it begins. -/
theorem World.comes_startEach (h : w.store.Follows reach i history)
    (halive : ∀ o, w.isAlive held o → reach.objects o.serial) (hstack : StackWithin reach stack)
    (wm : String) (what : Yielded) (block : Option (Block Step)) :
    (w.startEach held stack wm what block).Comes reach i history [] := by
  have hnamed := (World.Comes.start h).of_store (w.store_weakMapNamed wm)
  have hsame : (w.weakMapNamed wm).2.isAlive held = w.isAlive held := by
    unfold World.weakMapNamed
    split <;> rfl
  have hpairs : ∀ pair ∈ ((w.weakMapNamed wm).2.weakPairs held (w.weakMapNamed wm).1).1,
      pair.1.Within reach ∧ pair.2.Within reach := by
    intro pair hpair
    have hvalue : ∀ {v : Value}, v.isAlive (w.isAlive held) → v.Within reach := by
      intro v hv
      cases v with
      | object o => exact halive o hv
      | _ => trivial
    simp only [World.weakPairs, WeakMap.pairs, WeakMap.sweep, List.mem_map, List.mem_filter,
      hsame] at hpair
    obtain ⟨entry, ⟨-, hentry⟩, rfl⟩ := hpair
    obtain ⟨hkey, hval⟩ := Bool.and_eq_true_iff.mp hentry
    exact ⟨hvalue hkey, hvalue hval⟩
  unfold World.startEach
  dsimp only
  cases block with
  | some block =>
      refine Task.Stays.comes (World.stays_nextItem hstack ?_) (hnamed.of_store rfl)
      intro item hitem v hv
      obtain ⟨pair, hpair, rfl⟩ := List.mem_map.mp hitem
      obtain ⟨hkey, hval⟩ := hpairs pair hpair
      cases what <;> simp only [List.mem_cons, List.not_mem_nil, or_false] at hv <;>
        rcases hv with rfl | rfl <;> assumption
  | none =>
      have hreported : StackWithin reach (World.reportCalls 0 stack) := hstack.reportEvent _
      generalize List.map _ _ = items
      dsimp only
      split
      · exact (Task.Stays.giveFailure hreported _).comes (hnamed.of_store rfl)
      · exact Task.Stays.comes ⟨rfl, trivial, hreported⟩ (hnamed.of_store rfl)

theorem CallOp.comes_start (op : CallOp Body Step) {scope : Scope}
    (h : w.store.Follows reach i history)
    (hlives : ∀ p ∈ history.objects, w.isAlive scope.held p = history.isAlive p)
    (halive : ∀ o, w.isAlive scope.held o → reach.objects o.serial)
    (hstack : StackWithin reach stack) :
    (op.start scope.held w stack).Comes reach i history ((Op.call op).requests i scope w) := by
  have hstart := World.Comes.start h
  have hshowing : ∀ how, StackWithin reach (.showing how :: stack) :=
    fun how => .cons trivial hstack
  have hthread : ∀ name, (w.threadNamed name).2.Comes reach i history [] [] :=
    fun name => hstart.of_store (w.store_threadNamed name)
  have hlock : ∀ t m, (w.threadAndLock t m).2.2.Comes reach i history [] [] :=
    fun t m => hstart.of_store (w.store_threadAndLock t m)
  have hqueue : ∀ t q, ((w.threadNamed t).2.queueNamed q).2.Comes reach i history [] [] :=
    fun t q => (hthread t).of_store (World.store_queueNamed _ q)
  have hbounded : ∀ {s : String} {f : Nat → Task},
      (∀ q, reach.queues q → (f q).Comes reach i history []) →
        (w.callBounded stack s f).Comes reach i history [] := by
    intro s f hf
    unfold World.callBounded
    split
    · next q hs => exact hf q (h.bounded _ (mem_of_lookup hs))
    · exact (Task.Stays.giveFailure hstack _).comes hstart
  have hblocking : ∀ {w' : World} {held} {how wait}, w'.Comes reach i history [] held →
      wait.Within reach →
      (w'.startBlocking (.showing how :: stack) wait).Comes reach i history [] :=
    fun hw hwait => (World.stays_startBlocking (hshowing _) hwait).comes hw
  cases op with
  | poll name => exact (World.stays_startPoll _ (hshowing _)).comes (hthread name)
  | sleep name timeout =>
      refine Task.Stays.comes (World.stays_startBlocking ?_ trivial) (hthread name)
      exact .cons trivial (hshowing _)
  | runUntil name script plain => exact hblocking (hthread name) trivial
  | spawn | join => exact Task.Stays.comes ⟨rfl, trivial, hstack⟩ hstart
  | await what => exact Task.Stays.comes ⟨what.store_mention w, trivial, hstack⟩ hstart
  | lock t m => exact (World.stays_startMutex _ _ (hshowing _)).comes (hlock t m)
  | lockInternal t m | lockEven t m holds =>
      exact Task.Stays.comes (World.stays_startAcquire _ _ (hshowing _) trivial) (hlock t m)
  | mutexSleep t m timeout =>
      exact (World.stays_startMutexSleep _ _ (hshowing _) timeout).comes (hlock t m)
  | synchronize t m body | guarded t m body unlock =>
      refine (World.stays_startMutex _ _ ?_).comes (hlock t m)
      exact .cons trivial (hshowing _)
  | rawLock t m => exact ⟨hlock t m, trivial, hshowing _⟩
  | wait t m cv timeout =>
      exact (World.stays_startWait _ _ (hshowing _) _ timeout).comes
        ((hlock t m).of_store (World.store_conditionNamed _ cv))
  | take t q | pollTimeout t q timeout | pop t q | popTimeout t q timeout =>
      exact hblocking (hqueue t q) trivial
  | boundedPut t s v | boundedPush t s v =>
      refine hbounded fun q hq => ?_
      exact hblocking ((hthread t).evaluate v) ⟨hq, within_evaluate (hthread t) v⟩
  | boundedTake t s | boundedPollTimeout t s timeout | boundedPop t s
  | boundedPopTimeout t s timeout =>
      exact hbounded fun q hq => hblocking (hthread t) hq
  | finalize run =>
      have hnext : ∀ (w' : World) calls,
          (w'.nextFinalizer (.showing .shown :: stack) calls 0).Stays reach w' :=
        fun _ calls => World.stays_nextFinalizer (hshowing _) calls 0
      exact ⟨World.comes_startFinalizers h hlives _ run, (hnext _ _).control, (hnext _ _).stack⟩
  | each wm what block => exact World.comes_startEach h halive (hshowing _) wm what block
  | frame name frames steps forget =>
      exact (BodyRun.stays_proceed _ (hshowing _)).comes ((hthread name).of_store rfl)

theorem Wait.store_attempt (wait : Wait) (ticket : Ticket) (w : World) :
    (wait.attempt ticket w).1.store = w.store := by
  cases wait with
  | scripted | acquire =>
      simp only [attempt]
      split
      · rfl
      · unfold unlessInterrupted
        split <;> rfl
      · rfl
  | park | take | boundedTake | put =>
      simp only [attempt]
      split <;> rfl

theorem Wait.store_resume (wait : Wait) (old ticket : Ticket) (w : World) :
    (wait.resume old ticket w).1.store = w.store := by
  cases wait with
  | park | scripted | acquire => exact store_attempt _ ticket _
  | take | boundedTake | put =>
      simp only [resume]
      unfold unlessInterrupted
      split
      · rfl
      · exact store_attempt _ ticket _

theorem within_evaluateAll (h : w.Comes reach i history requests held) (specs : List ValueSpec) :
    ∀ v ∈ (w.evaluateAll specs).1, v.Within reach := by
  induction specs generalizing w held with
  | nil => exact List.forall_mem_nil _
  | cons spec specs ih =>
      exact List.forall_mem_cons.mpr ⟨within_evaluate h spec, ih (h.evaluate spec)⟩

theorem QueueRef.within_only {dealt : Dealing Value} (h : ∀ v ∈ dealt.accepted, v.Within reach)
    {r : QueueRef} (other : QueueRef) : ∀ v ∈ (r.only dealt other).accepted, v.Within reach := by
  unfold QueueRef.only
  split
  · exact h
  · exact List.forall_mem_nil _

theorem QueueOp.within_accepted (op : QueueOp) (h : w.store.Follows reach i history)
    (r : QueueRef) : ∀ v ∈ (op.dealing w r).accepted, v.Within reach := by
  have hstart := World.Comes.start h
  have hqueue : ∀ name, (w.queueNamed name).2.Comes reach i history [] [] :=
    fun name => hstart.of_store (w.store_queueNamed name)
  have hbounded : ∀ {s : String} {dealt : Nat → Dealing Value},
      (∀ q, ∀ v ∈ (dealt q).accepted, v.Within reach) →
        ∀ v ∈ (w.dealingBounded s dealt r).accepted, v.Within reach := by
    intro s dealt hdealt
    unfold World.dealingBounded
    cases w.boundedNamed? s with
    | some q => exact QueueRef.within_only (hdealt q) r
    | none => exact List.forall_mem_nil _
  have hoffer : ∀ {item : Value} (answer : Offer Value), item.Within reach →
      ∀ v ∈ (answer.dealing item).accepted, v.Within reach := by
    intro item answer hitem
    cases answer with
    | success => exact List.forall_mem_singleton.mpr hitem
    | full | closed => exact List.forall_mem_nil _
  have hadd : ∀ {vs : List Value} (succeeded : Bool), (∀ v ∈ vs, v.Within reach) →
      ∀ v ∈ (Dealing.ofAdd vs succeeded).accepted, v.Within reach := by
    intro vs succeeded hvs
    cases succeeded
    · exact List.forall_mem_nil _
    · exact hvs
  cases op with
  | add q v | push q v =>
      have hitem := List.forall_mem_singleton.mpr (within_evaluate (hqueue q) v)
      exact QueueRef.within_only (hadd _ hitem) r
  | addAll q vs => exact QueueRef.within_only (hadd _ (within_evaluateAll (hqueue q) vs)) r
  | offer q v => exact QueueRef.within_only (hoffer _ (within_evaluate (hqueue q) v)) r
  | boundedOffer s v => exact hbounded fun q => hoffer _ (within_evaluate hstart v)
  | boundedPushNow t s v =>
      exact hbounded fun q => hoffer _ (within_evaluate (hstart.of_store (w.store_threadNamed t)) v)
  | poll | popNow | clear => exact QueueRef.within_only (List.forall_mem_nil _) r
  | boundedPoll | boundedPopNow | boundedClear => exact hbounded fun q => List.forall_mem_nil _
  | close | info | boundedNew | boundedCapacity | boundedClose | boundedInfo =>
      exact List.forall_mem_nil _

theorem Wait.within_accepted {wait : Wait} (h : wait.Within reach) (progress : Progress)
    (r : QueueRef) : ∀ v ∈ (wait.dealing progress r).accepted, v.Within reach := by
  unfold dealing
  split
  · next accepted =>
    refine QueueRef.within_only ?_ r
    cases accepted
    · exact List.forall_mem_nil _
    · exact List.forall_mem_singleton.mpr h.2
  · exact QueueRef.within_only (List.forall_mem_nil _) r
  · exact QueueRef.within_only (List.forall_mem_nil _) r
  · exact List.forall_mem_nil _

end Operations

section Progress

variable {reach : Reach} {w : World} {stack : List Frame}

def Progress.Within (reach : Reach) : Progress → Prop
  | .done y => Outcome.Within reach (.ok y)
  | .interrupted wait | .parked wait _ _ => wait.Within reach
  | .panics _ => True

theorem stays_afterAttempt (hstack : StackWithin reach stack) {progress : Progress}
    (hprogress : progress.Within reach) : (afterAttempt stack w progress).Stays reach w := by
  cases progress with
  | panics text => exact ⟨rfl, trivial, hstack⟩
  | _ => exact ⟨rfl, hprogress, hstack⟩

/-- What may be referred to is in the queues. -/
structure World.ItemsWithin (w : World) (reach : Reach) : Prop where
  sound : w.QueuesSound
  unbounded : ∀ q, ∀ v ∈ (w.queue q).items, v.Within reach
  bounded : ∀ q, reach.queues q → ∀ v ∈ (w.boundedQueue q).contents, v.Within reach

theorem World.SameItems.within {w' : World} (h : w.SameItems w') (hw : w.ItemsWithin reach) :
    w'.ItemsWithin reach where
  sound := h.sound hw.sound
  unbounded q := by
    rw [h.items q]
    exact hw.unbounded q
  bounded q hq := by
    have hcontents : (w'.boundedQueue q).contents = (w.boundedQueue q).contents :=
      h.contents (.bounded q)
    rw [hcontents]
    exact hw.bounded q hq

private theorem within_taken {items rest : List Value} {result : Option (Taken Value)}
    (hitems : ∀ v ∈ items, v.Within reach)
    (h : items ++ (Dealing.ofTake (.done result)).accepted =
      (Dealing.ofTake (.done result)).removed ++ rest) :
    Outcome.Within reach (.ok (.taken result)) := by
  rcases result with _ | v | _
  · trivial
  · have heq : items = v :: rest := by simpa [Dealing.ofTake, Dealing.ofPoll, Taken.item?] using h
    exact hitems v (heq ▸ List.mem_cons_self)
  · trivial

theorem Wait.within_attempt {wait : Wait} (h : wait.Within reach) (hw : w.ItemsWithin reach)
    (ticket : Ticket) : (wait.attempt ticket w).2.Within reach := by
  cases wait with
  | take t q deadline =>
      have hdeals := (w.queue q).deals_take (isLate w.clock deadline) ticket
      simp only [attempt]
      split
      · next htake =>
        rw [htake] at hdeals
        exact within_taken (hw.unbounded q) hdeals
      · trivial
  | boundedTake t q deadline =>
      have hdeals := ((hw.sound q).deals_take (isLate w.clock deadline) ticket).items
      simp only [attempt]
      split
      · next htake =>
        rw [htake] at hdeals
        exact within_taken (hw.bounded q h) hdeals
      · exact h
  | put t q item =>
      simp only [attempt]
      split
      · trivial
      · exact h
  | park t deadline parking =>
      simp only [attempt]
      split
      · split <;> trivial
      · trivial
  | acquire | scripted =>
      simp only [attempt]
      split
      · trivial
      · unfold unlessInterrupted
        split <;> trivial
      · trivial

theorem Wait.within_resume {wait : Wait} (h : wait.Within reach) (hw : w.ItemsWithin reach)
    (old ticket : Ticket) : (wait.resume old ticket w).2.Within reach := by
  cases hqueueing : wait.isQueueing with
  | true =>
      obtain ⟨w', hsight, hresume⟩ := resume_eq hqueueing old ticket w
      rw [hresume]
      unfold unlessInterrupted
      split
      · exact h
      · exact within_attempt h (hsight.toSameItems.within hw) ticket
  | false =>
      cases wait with
      | take | boundedTake | put => cases hqueueing
      | park | scripted => exact within_attempt h hw ticket
      | acquire t l =>
          refine within_attempt h (World.SameItems.within ?_ hw) ticket
          exact ((w.quiet_updateLock l _).toSameQueues).sameItems

end Progress

end Session

end RubyRuntime
