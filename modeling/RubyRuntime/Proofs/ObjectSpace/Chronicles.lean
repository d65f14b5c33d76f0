import RubyRuntime.Proofs.ObjectSpace.Operations

/-!
# Histories of sessions

Whatever its executors do and in whatever order, a session leads to a history of registrations for
each of its spaces: the space has come to where the history has, and the objects that are alive are
those that have not died in it. `Machine.Records` is the invariant. The events about finalizers are
those that the steps ask for.
-/
namespace RubyRuntime

def RegistrationRun.Spares {φ : Type} (history : RegistrationRun φ) (serial : Nat) : Prop :=
  ∀ o ∈ history.objects, o.serial = serial → history.isAlive o

theorem RegistrationRun.along_deaths {φ : Type} (run : RegistrationRun φ) (dying : List ObjectRef) :
    let last := run.along (dying.map .die)
    last.heap = run.heap ∧ last.space = run.space ∧ last.objects = run.objects ∧
      ∀ o, last.isAlive o = (run.isAlive o && o ∉ dying) := by
  induction dying generalizing run with
  | nil => exact ⟨rfl, rfl, rfl, by simp [along]⟩
  | cons p dying ih =>
      obtain ⟨hheap, hspace, hobjects, halive⟩ := ih (run.step (.die p))
      have hone : ∀ o, (run.step (.die p)).isAlive o = (run.isAlive o && o ≠ p) := by
        intro o
        simp only [step]
        split
        · simp [isAlive, Bool.and_comm, Bool.and_left_comm]
        · next hp =>
          by_cases ho : o = p
          · simp [ho, hp]
          · simp [ho]
      have hkept : (run.step (.die p)).heap = run.heap ∧ (run.step (.die p)).space = run.space ∧
          (run.step (.die p)).objects = run.objects := by
        simp only [step]
        split <;> exact ⟨rfl, rfl, rfl⟩
      refine ⟨hheap.trans hkept.1, hspace.trans hkept.2.1, hobjects.trans hkept.2.2, fun o => ?_⟩
      refine (halive o).trans ?_
      rw [hone]
      simp [Bool.and_assoc]

theorem Value.Within.of_refersTo {reach : Reach} {v : Value} {o : ObjectRef} (h : v.Within reach)
    (hrefers : v.refersTo o) : reach.objects o.serial := by
  cases v with
  | object p =>
      have hserial : p.serial = o.serial := by simpa [refersTo] using hrefers
      exact hserial ▸ h
  | _ => cases hrefers

theorem Value.within_of_refersTo {reach : Reach} {v : Value}
    (h : ∀ o, v.refersTo o → reach.objects o.serial) : v.Within reach := by
  cases v with
  | object o => exact h o (by simp [refersTo])
  | _ => trivial

namespace Session

section Lives

variable {w : World} {held : List ObjectRef} {o p : ObjectRef}

theorem World.isAlive_iff : w.isAlive held o ↔ (∃ p ∈ held, p.serial = o.serial) ∨
    (∃ entry ∈ w.names.objects, entry.2.serial = o.serial) ∨
    (∃ queue ∈ w.queues, ∃ v ∈ queue.items, v.refersTo o) ∨
    (∃ entry ∈ w.names.bounded, ∃ v ∈ (w.boundedQueue entry.2).contents, v.refersTo o) ∨
    ∃ map ∈ w.weakKeyMaps, ∃ entry ∈ map.entries, entry.2.value.refersTo o := by
  simp [isAlive, holdsDirectly, mapHolds, or_assoc]

theorem World.isAlive_congr (h : o.serial = p.serial) : w.isAlive held o = w.isAlive held p := by
  have hrefers : Value.refersTo o = Value.refersTo p := by
    funext v
    cases v <;> simp [Value.refersTo, h]
  have hholds : mapHolds o = mapHolds p := by
    funext map
    simp [mapHolds, hrefers]
  simp [isAlive, holdsDirectly, hrefers, hholds, h]

end Lives

section Objects

variable {reach : Reach} {w : World}

theorem within_objectsOf {values : List Value} :
    (∀ v ∈ values, v.Within reach) ↔ ∀ o ∈ objectsOf values, reach.objects o.serial := by
  constructor
  · intro h o ho
    obtain ⟨v, hv, heq⟩ := List.mem_filterMap.mp ho
    have hwithin := h v hv
    cases v <;> cases heq
    exact hwithin
  · intro h v hv
    cases v with
    | object o => exact h o (List.mem_filterMap.mpr ⟨_, hv, rfl⟩)
    | _ => trivial

theorem Outcome.within_iff {outcome : Outcome} : Outcome.Within reach outcome ↔
    ∀ o ∈ Outcome.objects outcome, reach.objects o.serial := by
  unfold Outcome.objects
  split
  · next v =>
    rw [← within_objectsOf, List.forall_mem_singleton]
    rfl
  · next hother =>
    refine ⟨fun _ => List.forall_mem_nil _, fun _ => ?_⟩
    unfold Outcome.Within
    split
    · next v => exact absurd rfl (hother v)
    · trivial

section Held

variable (hqueues : ∀ q, (∀ v ∈ (w.boundedQueue q).contents, v.Within reach) → reach.queues q)

include hqueues

theorem Wait.within_of_objects {wait : Wait} (h : ∀ o ∈ wait.objects w, reach.objects o.serial) :
    wait.Within reach := by
  cases wait with
  | put t q item =>
      obtain ⟨hitem, hcontents⟩ := List.forall_mem_cons.mp (within_objectsOf.mpr h)
      exact ⟨hqueues q hcontents, hitem⟩
  | boundedTake t q deadline => exact hqueues q (within_objectsOf.mpr h)
  | _ => trivial

theorem Control.within_of_objects {control : Control}
    (h : ∀ o ∈ control.objects w, reach.objects o.serial) : control.Within reach := by
  cases control with
  | attempt | parked | interrupted => exact Wait.within_of_objects hqueues h
  | give outcome => exact Outcome.within_iff.mpr h
  | _ => trivial

theorem Frame.within_of_objects {frame : Frame}
    (h : ∀ o ∈ frame.objects w, reach.objects o.serial) : frame.Within reach := by
  cases frame with
  | blocking | polled => exact Wait.within_of_objects hqueues h
  | unlocking outcome => exact Outcome.within_iff.mpr h
  | iterating iteration =>
      intro item hitem
      refine within_objectsOf.mpr fun o ho => h o ?_
      exact List.mem_flatMap.mpr ⟨item, hitem, ho⟩
  | _ => trivial

end Held

section Referred

variable (hqueues : ∀ q, reach.queues q → ∀ v ∈ (w.boundedQueue q).contents, v.Within reach)

include hqueues

theorem Wait.objects_within {wait : Wait} (h : wait.Within reach) :
    ∀ o ∈ wait.objects w, reach.objects o.serial := by
  cases wait with
  | put t q item =>
      exact within_objectsOf.mp (List.forall_mem_cons.mpr ⟨h.2, hqueues q h.1⟩)
  | boundedTake t q deadline => exact within_objectsOf.mp (hqueues q h)
  | _ => exact List.forall_mem_nil _

theorem Control.objects_within {control : Control} (h : control.Within reach) :
    ∀ o ∈ control.objects w, reach.objects o.serial := by
  cases control with
  | attempt | parked | interrupted => exact Wait.objects_within hqueues h
  | give outcome => exact Outcome.within_iff.mp h
  | _ => exact List.forall_mem_nil _

theorem Frame.objects_within {frame : Frame} (h : frame.Within reach) :
    ∀ o ∈ frame.objects w, reach.objects o.serial := by
  cases frame with
  | blocking | polled => exact Wait.objects_within hqueues h
  | unlocking outcome => exact Outcome.within_iff.mp h
  | iterating iteration =>
      intro o ho
      obtain ⟨item, hitem, ho⟩ := List.mem_flatMap.mp ho
      exact within_objectsOf.mp (h item hitem) o ho
  | _ => exact List.forall_mem_nil _

end Referred

end Objects

def Executor.Within (reach : Reach) (e : Executor) : Prop :=
  e.control.Within reach ∧ StackWithin reach e.stack

namespace Machine

/-- What is not dead in the history, and the bounded queues that hold nothing else. -/
def reach (history : RegistrationRun Finalizer) (m : Machine) : Reach where
  objects := history.Spares
  queues q := ∀ o ∈ objectsOf (m.world.boundedQueue q).contents, history.Spares o.serial

/-- A machine has come to where a history of its space `i` has, and its objects live and die with
those of the history. -/
structure Records (i : Nat) (history : RegistrationRun Finalizer) (m : Machine) : Prop where
  queues : m.world.QueuesSound
  store : m.world.store.Records i history
  lives : ∀ o ∈ history.objects, m.world.isAlive m.held o = history.isAlive o

/-- A step leads on from a history by the given requests. -/
def Comes (reach : Reach) (i : Nat) (history : RegistrationRun Finalizer)
    (requests : List (RegistrationEvent Finalizer)) (m : Machine) : Prop :=
  m.world.Comes reach i history requests [] ∧ ∀ e ∈ m.executors, e.Within reach

/-- What the next step of executor `me` asks of space `i` about finalizers. -/
def requests (i : Nat) (m : Machine) (me : Nat) : List (RegistrationEvent Finalizer) :=
  match m.executors[me]? with
  | some ⟨current, .perform op, _⟩ => op.requests i ⟨me, current, m.held⟩ m.world
  | _ => []

variable {i : Nat} {history : RegistrationRun Finalizer} {m : Machine} {me : Nat} {e : Executor}
  {reach : Reach} {requested : List (RegistrationEvent Finalizer)} {o : ObjectRef}

theorem Records.spares (h : m.Records i history) (ho : m.world.isAlive m.held o) :
    history.Spares o.serial := by
  intro p hp hserial
  rw [← h.lives p hp, World.isAlive_congr hserial]
  exact ho

theorem Records.within_value (h : m.Records i history) {v : Value}
    (hv : ∀ o, v.refersTo o → m.world.isAlive m.held o) : v.Within (m.reach history) :=
  Value.within_of_refersTo fun o ho => h.spares (hv o ho)

theorem Records.follows (h : m.Records i history) :
    m.world.store.Follows (m.reach history) i history :=
  { h.store with
    names := fun entry hentry => h.spares (World.isAlive_iff.mpr (.inr (.inl ⟨entry, hentry, rfl⟩)))
    bounded := fun entry hentry => within_objectsOf.mp fun v hv => h.within_value fun o ho =>
      World.isAlive_iff.mpr (.inr (.inr (.inr (.inl ⟨entry, hentry, v, hv, ho⟩))))
    values := fun map hmap entry hentry => h.within_value fun o ho =>
      World.isAlive_iff.mpr (.inr (.inr (.inr (.inr ⟨map, hmap, entry, hentry, ho⟩))))
    fresh := fun serial hle o ho hserial =>
      absurd (h.store.sound.serial_lt o ho) (Nat.not_lt.mpr (hserial ▸ hle))
    dead := fun o ho hspares => by
      have halive := hspares o (h.store.sound.dead_mem o ho) rfl
      exact (RegistrationRun.isAlive_iff.mp halive).2 ho }

theorem Records.within (h : m.Records i history) (he : e ∈ m.executors) :
    e.Within (m.reach history) := by
  have hheld : ∀ o ∈ e.objects m.world, history.Spares o.serial := fun o ho =>
    h.spares (World.isAlive_iff.mpr (.inl ⟨o, List.mem_flatMap.mpr ⟨e, he, ho⟩, rfl⟩))
  have hqueues : ∀ q, (∀ v ∈ (m.world.boundedQueue q).contents, v.Within (m.reach history)) →
      (m.reach history).queues q := fun q => within_objectsOf.mp
  refine ⟨Control.within_of_objects hqueues fun o ho => hheld o (List.mem_append_left _ ho), ?_⟩
  intro frame hframe
  refine Frame.within_of_objects hqueues fun o ho => hheld o (List.mem_append_right _ ?_)
  exact List.mem_flatMap.mpr ⟨frame, hframe, ho⟩

theorem Records.items (h : m.Records i history) : m.world.ItemsWithin (m.reach history) where
  sound := h.queues
  unbounded q v hv := by
    refine h.within_value fun o ho => World.isAlive_iff.mpr (.inr (.inr (.inl ?_)))
    unfold World.queue at hv
    cases hq : m.world.queues[q]? with
    | none => rw [hq] at hv; cases hv
    | some queue =>
        rw [hq] at hv
        exact ⟨queue, List.mem_of_getElem? hq, v, hv, ho⟩
  bounded q hq := within_objectsOf.mpr hq

theorem comes_put (m : Machine) {me : Nat} (hw : ∀ e ∈ m.executors, e.Within reach) {task : Task}
    (h : task.Comes reach i history requested) (current : Option ThreadId) :
    (m.put me current task).Comes reach i history requested := by
  refine ⟨h.world, fun e he => ?_⟩
  rcases List.mem_or_eq_of_mem_set he with he | rfl
  · exact hw e he
  · exact ⟨h.control, h.stack⟩

theorem comes_receiveAnswer {w : World} {stack : List Frame}
    (h : w.Comes reach i history requested []) (hstack : StackWithin reach stack)
    (watched : List Watched) (held : List ObjectRef) (report : Report) (failure : Option Error) :
    (receiveAnswer watched held w stack report failure).Comes reach i history requested := by
  unfold receiveAnswer
  split
  · next run base =>
    have hbase : StackWithin reach base := (List.forall_mem_cons.mp hstack).2
    dsimp only
    split
    · exact (BodyRun.stays_conclude _ hbase _).comes h
    · exact (BodyRun.stays_proceed _ hbase).comes h
  · next remaining answers base =>
    have hshown := h.snapshots held watched
    dsimp only
    unfold nextStep
    split
    · exact ⟨hshown, trivial, List.forall_mem_nil _⟩
    · exact ⟨hshown, trivial, .cons trivial (.cons trivial (List.forall_mem_nil _))⟩
  · exact ⟨h, trivial, hstack⟩

theorem Records.comes_spawn (h : m.Records i history) (he : e ∈ m.executors) (name : String)
    (threadName : Option String) (body : Body) :
    (m.spawn me e name threadName body).Comes (m.reach history) i history [] := by
  have hstart := World.Comes.start h.follows
  have hstack := (h.within he).2
  unfold spawn
  split
  · exact m.comes_put (fun _ => h.within) ((Task.Stays.giveFailure hstack _).comes
      (hstart.of_store rfl)) _
  · have hbody : (World.startBody (m.world.newThread name threadName).2 []
        (.thread (m.world.newThread name threadName).1) body).Stays (m.reach history)
          (m.world.newThread name threadName).2 :=
      World.stays_startBody (List.forall_mem_nil _) _ body
    have hcomes := hbody.comes (hstart.of_store (m.world.store_newThread name threadName))
    have hgiven : (World.give _ e.stack .unit).Comes (m.reach history) i history [] :=
      ⟨hcomes.world, trivial, hstack⟩
    obtain ⟨hworld, hexecutors⟩ := m.comes_put (fun _ => h.within) hgiven e.current
    refine ⟨hworld, fun x hx => ?_⟩
    rcases List.mem_append.mp hx with hx | hx
    · exact hexecutors x hx
    · rw [List.mem_singleton.mp hx]
      exact ⟨hcomes.control, hcomes.stack⟩

theorem Records.comes_perform (h : m.Records i history) (he : e ∈ m.executors) (op : Op) :
    (m.perform me e op).Comes (m.reach history) i history
      (op.requests i ⟨me, e.current, m.held⟩ m.world) := by
  have hfollows := h.follows
  have hstart := World.Comes.start hfollows
  have hstack := (h.within he).2
  have hput : ∀ {task : Task} {current}, task.Comes (m.reach history) i history
        (op.requests i ⟨me, e.current, m.held⟩ m.world) →
      (m.put me current task).Comes (m.reach history) i history
        (op.requests i ⟨me, e.current, m.held⟩ m.world) :=
    fun htask => m.comes_put (fun _ => h.within) htask _
  cases op with
  | thread op => exact hput (comes_afterReply (hstart.of_store (op.store_perform _ _)) hstack)
  | mutex op =>
      simp only [perform]
      split
      · exact ⟨hstart, fun _ => h.within⟩
      · exact hput ((op.stays_start hstack).comes hstart)
  | queue op =>
      refine hput (comes_afterReply (op.comes_perform hfollows ?_) hstack)
      -- A queue that is made in the step is empty, so it refers to nothing.
      have hunmade : m.world.boundedQueue m.world.bounded.length = World.unmadeBounded := by
        simp [World.boundedQueue]
      have hnone : World.unmadeBounded.contents = [] :=
        World.implements_unmadeBounded.ring.toList_eq
      intro o ho
      rw [hunmade, hnone] at ho
      cases ho
  | object op => exact hput (comes_afterReply (op.comes_perform hfollows) hstack)
  | space op => exact hput (comes_afterReply (op.comes_perform hfollows h.lives) hstack)
  | weak op => exact hput (comes_afterReply (op.comes_perform _ hfollows) hstack)
  | stack op => exact hput (comes_afterReply (hstart.of_store (op.store_perform _)) hstack)
  | call op =>
      cases op with
      | spawn name threadName body => exact h.comes_spawn he name threadName body
      | join name =>
          simp only [perform]
          split
          · exact hput ⟨hstart, trivial, hstack⟩
          · exact hput ((Task.Stays.giveFailure hstack _).comes hstart)
      | _ => exact hput (CallOp.comes_start _ hfollows h.lives (fun _ => h.spares) hstack)

theorem Records.comes_step (h : m.Records i history) (me : Nat) :
    (m.step me).Comes (m.reach history) i history (m.requests i me) := by
  have hstart := World.Comes.start h.follows
  cases he : m.executors[me]? with
  | none =>
      have hstep : m.step me = m := by simp [step, he]
      have hnothing : m.requests i me = [] := by simp [requests, he]
      rw [hstep, hnothing]
      exact ⟨hstart, fun _ => h.within⟩
  | some e =>
      obtain ⟨hcontrol', hstack'⟩ := h.within (List.mem_of_getElem? he)
      have hdraw := hstart.of_store m.world.store_drawTicket
      have hnothing : (∀ op, e.control ≠ .perform op) → m.requests i me = [] := by
        intro hop
        unfold requests
        split
        · next op _ heq =>
          cases he.symm.trans heq
          exact absurd rfl (hop op)
        · rfl
      have hput : ∀ {task : Task}, (∀ op, e.control ≠ .perform op) →
          task.Comes (m.reach history) i history [] →
            (m.put me e.current task).Comes (m.reach history) i history (m.requests i me) := by
        intro task hop htask
        rw [hnothing hop]
        exact m.comes_put (fun _ => h.within) htask _
      have hdoes := does he
      generalize m.step me = m' at hdoes ⊢
      cases hdoes with
      | idles hcontrol =>
          rw [hnothing]
          · exact ⟨hstart, fun _ => h.within⟩
          · rcases hcontrol with ⟨_, hcontrol⟩ | ⟨_, hcontrol⟩ | ⟨_, hcontrol⟩ <;> simp [hcontrol]
      | @performs op hcontrol =>
          have hrequests : m.requests i me = op.requests i ⟨me, e.current, m.held⟩ m.world := by
            obtain ⟨current, control, stack⟩ := e
            cases hcontrol
            simp [requests, he]
          rw [hrequests]
          exact h.comes_perform (List.mem_of_getElem? he) op
      | attempts hcontrol =>
          rw [hcontrol] at hcontrol'
          refine hput (by simp [hcontrol]) (Task.Stays.comes (stays_afterAttempt ?_ ?_)
            (hdraw.of_store (Wait.store_attempt _ _ _)))
          · exact hstack'.of_shape (shape_noteAttempt _ _ _)
          · refine Wait.within_attempt hcontrol' (World.SameItems.within ?_ h.items) _
            exact m.world.sameSight_drawTicket.toSameItems
      | resumes hcontrol =>
          rw [hcontrol] at hcontrol'
          refine hput (by simp [hcontrol]) (Task.Stays.comes (stays_afterAttempt hstack' ?_)
            (hdraw.of_store (Wait.store_resume _ _ _ _)))
          refine Wait.within_resume hcontrol' (World.SameItems.within ?_ h.items) _ _
          exact m.world.sameSight_drawTicket.toSameItems
      | releases hcontrol =>
          exact hput (by simp [hcontrol]) ((World.stays_release _ _ hstack').comes hstart)
      | polls hcontrol hstack =>
          rw [hstack] at hstack'
          rw [hcontrol] at hcontrol'
          refine hput (by simp [hcontrol]) (Task.Stays.comes (World.stays_startPoll _ ?_)
            (hstart.of_store rfl))
          exact .cons hcontrol' (List.forall_mem_cons.mp hstack').2
      | refuses hcontrol =>
          exact hput (by simp [hcontrol]) ((Task.Stays.giveFailure hstack' _).comes hstart)
      | continues hcontrol =>
          exact hput (by simp [hcontrol]) ((stays_continueWait hstack' me _ _).comes hstart)
      | learns hcontrol =>
          refine hput ?_ (Task.Stays.comes ⟨rfl, trivial, hstack'⟩ hstart)
          rcases hcontrol with ⟨_, hcontrol⟩ | ⟨_, hcontrol⟩ <;> simp [hcontrol]
      | receives hcontrol hstack =>
          rw [hstack] at hstack'
          rw [hcontrol] at hcontrol'
          obtain ⟨hframe, hbase⟩ := List.forall_mem_cons.mp hstack'
          have hreceived := Frame.stays_receive (w := m.world) hframe hbase hcontrol'
          exact hput (by simp [hcontrol]) (hreceived.comes hstart)
      | finishes hcontrol =>
          exact hput (by simp [hcontrol]) ⟨hstart, trivial, List.forall_mem_nil _⟩
      | answers hcontrol =>
          exact hput (by simp [hcontrol]) (comes_receiveAnswer hstart hstack' _ _ _ _)

theorem Records.within_accepted (h : m.Records i history) (me : Nat) (r : QueueRef) :
    ∀ v ∈ (m.dealing me r).accepted, v.Within (m.reach history) := by
  unfold dealing
  cases he : m.executors[me]? with
  | none => exact List.forall_mem_nil _
  | some e =>
      have hwithin := (h.within (List.mem_of_getElem? he)).1
      dsimp only
      unfold Executor.dealing
      cases hcontrol : e.control with
      | perform op =>
          cases op with
          | queue op => exact op.within_accepted h.follows r
          | _ => exact List.forall_mem_nil _
      | attempt | parked =>
          rw [hcontrol] at hwithin
          exact Wait.within_accepted hwithin _ r
      | _ => exact List.forall_mem_nil _

theorem Records.items_step (h : m.Records i history) (me : Nat) :
    (m.step me).world.ItemsWithin (m.reach history) := by
  have htrades := trades_step h.queues me
  have hkeep : ∀ r, (∀ v ∈ m.world.contents r, v.Within (m.reach history)) →
      ∀ v ∈ (m.step me).world.contents r, v.Within (m.reach history) := by
    intro r hr v hv
    -- The item was in the queue before the step or has been accepted in it.
    have hmem : v ∈ m.world.contents r ++ (m.dealing me r).accepted := by
      rw [htrades.contents r]
      exact List.mem_append_right _ hv
    rcases List.mem_append.mp hmem with hv | hv
    · exact hr v hv
    · exact h.within_accepted me r v hv
  exact ⟨htrades.sound, fun q => hkeep (.unbounded q) (h.items.unbounded q),
    fun q hq => hkeep (.bounded q) (h.items.bounded q hq)⟩

theorem Records.reach_step (h : m.Records i history) {events : List (RegistrationEvent Finalizer)}
    (hfollows : (m.step me).world.store.Follows (m.reach history) i (history.along events))
    (hwithin : ∀ e ∈ (m.step me).executors, e.Within (m.reach history))
    (ho : (m.step me).world.isAlive (m.step me).held o) : (m.reach history).objects o.serial := by
  have hitems := h.items_step me
  -- The object is held by a running step, a name, a queue or a value of a weak key map.
  rcases World.isAlive_iff.mp ho with ⟨p, hp, hserial⟩ | ⟨entry, hentry, hserial⟩ |
    ⟨queue, hqueue, v, hv, hrefers⟩ | ⟨entry, hentry, v, hv, hrefers⟩ |
    ⟨map, hmap, entry, hentry, hrefers⟩
  · obtain ⟨e, he, hp⟩ := List.mem_flatMap.mp hp
    rw [← hserial]
    rcases List.mem_append.mp hp with hp | hp
    · exact Control.objects_within hitems.bounded (hwithin e he).1 p hp
    · obtain ⟨frame, hframe, hp⟩ := List.mem_flatMap.mp hp
      exact Frame.objects_within hitems.bounded ((hwithin e he).2 frame hframe) p hp
  · exact hserial ▸ hfollows.names entry hentry
  · obtain ⟨q, hq⟩ := List.mem_iff_getElem?.mp hqueue
    refine (hitems.unbounded q v ?_).of_refersTo hrefers
    rw [World.queue, hq]
    exact hv
  · exact (hitems.bounded _ (hfollows.bounded entry hentry) v hv).of_refersTo hrefers
  · exact (hfollows.values map hmap entry hentry).of_refersTo hrefers

/-- After a step, what the session holds no longer has died. -/
theorem Records.step (h : m.Records i history) (me : Nat) :
    ∃ events, events.filter (·.isRequest) = m.requests i me ∧
      (m.step me).Records i (history.along events) := by
  obtain ⟨⟨events, hrequests, -, hfollows, -⟩, hwithin⟩ := h.comes_step me
  -- Whatever is not held any more when the step is over dies then.
  let dying := (history.along events).objects.filter fun o =>
    !(m.step me).world.isAlive (m.step me).held o
  obtain ⟨hheap, hspace, hobjects, halive⟩ := (history.along events).along_deaths dying
  refine ⟨events ++ dying.map .die, ?_, ?_⟩
  · rw [List.filter_append, hrequests, List.filter_eq_nil_iff.mpr, List.append_nil]
    simp [RegistrationEvent.isRequest]
  rw [RegistrationRun.along_append]
  refine ⟨(trades_step h.queues me).sound, ?_, fun o ho => ?_⟩
  · exact {
      sound := hfollows.sound.along _
      heap_eq := hfollows.heap_eq.trans hheap.symm
      finalizers_eq := hspace ▸ hfollows.finalizers_eq
      objects := hobjects ▸ hfollows.objects
      address_eq := hobjects ▸ hfollows.address_eq
      spaces_pos := hfollows.spaces_pos
      spaceNames_lt := hfollows.spaceNames_lt }
  · rw [hobjects] at ho
    rw [halive]
    cases hlives : (m.step me).world.isAlive (m.step me).held o with
    | true =>
        have hkept : (history.along events).isAlive o :=
          hfollows.isAlive ho (h.reach_step hfollows hwithin hlives)
        simp [dying, hkept, hlives]
    | false => simp [dying, ho, hlives]

theorem records_tick (h : m.Records i history) (millis : Nat) :
    (m.tick millis).Records i history :=
  ⟨h.queues, h.store, h.lives⟩

theorem Records.follow (h : m.Records i history) (moves : List Move) :
    ∃ events, events.filter (·.isRequest) = m.log (requests i) moves ∧
      (m.follow moves).Records i (history.along events) := by
  induction moves generalizing m history with
  | nil => exact ⟨[], rfl, h⟩
  | cons move moves ih =>
      cases move with
      | tick millis => exact ih (records_tick h millis)
      | step me =>
          obtain ⟨events, hrequests, hstep⟩ := h.step me
          obtain ⟨others, hothers, hfollow⟩ := ih hstep
          refine ⟨events ++ others, ?_, ?_⟩
          · rw [List.filter_append, hrequests, hothers]
            rfl
          · rw [RegistrationRun.along_append]
            exact hfollow

end Machine

/-- Every session records a history of each of its spaces. -/
theorem Script.records_start (script : Script) (i : Nat) : script.start.Records i {} := by
  refine ⟨script.queues_start.1, ?_, List.forall_mem_nil _⟩
  refine script.start_keeps (P := fun w => w.store.Records i {}) (fun w watched h => ?_) ?_
  · cases watched with
    | weakKeyMap name =>
        simp only [World.mention, World.weakKeyMapNamed]
        split
        · exact h
        · exact { h with }
    | _ => simpa [World.mention] using h
  · exact {
      sound := .start {}
      heap_eq := rfl
      finalizers_eq := by cases i <;> rfl
      objects := List.forall_mem_nil _
      address_eq := List.forall_mem_nil _
      spaces_pos := Nat.zero_lt_one
      spaceNames_lt := List.forall_mem_nil _ }

end Session

end RubyRuntime
