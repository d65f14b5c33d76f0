import RubyRuntime.Proofs.ObjectSpace.Registrations
import RubyRuntime.Proofs.Session.References

/-!
# What steps do to objects and finalizers

A step of a session allocates and shares objects, gives ids, and defines, removes or takes
finalizers. All of these are events of a history of registrations: `Store.Follows` joins what a
session has come to with such a history, and `World.Comes` says that a step leads on to more events.
Among them, those that `Op.requests` reads off the step are the ones about finalizers. No event of a
step is a death: an object dies when nothing refers to it any more.
-/
namespace RubyRuntime

variable {φ : Type}

namespace RegistrationEvent

def isRequest : RegistrationEvent φ → Bool
  | define _ _ _ | undefine _ | runPending | collect | runAll => true
  | _ => false

def isDeath : RegistrationEvent φ → Bool
  | die _ => true
  | _ => false

end RegistrationEvent

namespace RegistrationRun

variable {run : RegistrationRun φ} {event : RegistrationEvent φ} {o : ObjectRef}

theorem along_append (events later : List (RegistrationEvent φ)) :
    run.along (events ++ later) = (run.along events).along later :=
  List.foldl_append

theorem dead_step (h : event.isDeath = false) : (run.step event).dead = run.dead := by
  cases event with
  | die o => cases h
  | runPending | collect | runAll => rfl
  | define me o finalizer =>
      simp only [step, RegistrationRun.define]
      split
      · split <;> rfl
      · rfl
  | _ =>
      simp only [step]
      split <;> rfl

theorem objects_step (event : RegistrationEvent φ) :
    ∀ o ∈ run.objects, o ∈ (run.step event).objects := by
  intro o ho
  cases event with
  | runPending | collect | runAll => exact ho
  | allocate address className payload =>
      simp only [step]
      split
      · exact ho
      · exact List.mem_cons_of_mem _ ho
  | define me o finalizer =>
      simp only [step, RegistrationRun.define]
      split
      · split <;> exact ho
      · exact ho
  | _ =>
      simp only [step]
      split <;> exact ho

theorem mem_objects_step (h : o ∈ (run.step event).objects) :
    o ∈ run.objects ∨ o.serial = run.heap.nextSerial ∧
      ∃ className payload, event = .allocate o.address className payload := by
  cases event with
  | runPending | collect | runAll => exact .inl h
  | allocate address className payload =>
      simp only [step] at h
      split at h
      · exact .inl h
      · rcases List.mem_cons.mp h with rfl | h
        · exact .inr ⟨rfl, className, payload, rfl⟩
        · exact .inl h
  | define me p finalizer =>
      simp only [step, RegistrationRun.define] at h
      split at h
      · split at h <;> exact .inl h
      · exact .inl h
  | _ =>
      simp only [step] at h
      split at h <;> exact .inl h

theorem isAlive_step (h : event.isDeath = false) (ho : o ∈ run.objects) :
    (run.step event).isAlive o = run.isAlive o := by
  simp [isAlive, dead_step h, objects_step event o ho, ho]

theorem finalizers_step (h : event.isRequest = false) :
    (run.step event).space.finalizers = run.space.finalizers := by
  cases event with
  | define | undefine | runPending | collect | runAll => cases h
  | _ =>
      simp only [step]
      split <;> rfl

theorem nextSerial_step (h : run.Sound) (event : RegistrationEvent φ) :
    run.heap.nextSerial ≤ (run.step event).heap.nextSerial := by
  have hrequested : ∀ me o ids, (objectId? me o run.heap ids).2.1.nextSerial =
      run.heap.nextSerial :=
    fun me o ids => (objectId?_requested me (h.unlocked o)).nextSerial_eq
  cases event with
  | runPending | collect | runAll => exact Nat.le_refl _
  | allocate address className payload =>
      simp only [step]
      split
      · exact Nat.le_refl _
      · exact Nat.le_succ _
  | objectId me o | identify me o ids =>
      simp only [step]
      split
      · exact Nat.le_of_eq (hrequested me o _).symm
      · exact Nat.le_refl _
  | define me o finalizer =>
      have heq := hrequested me o run.space.ids
      simp only [step, RegistrationRun.define]
      split
      · split <;> exact Nat.le_of_eq heq.symm
      · exact Nat.le_refl _
  | _ =>
      simp only [step]
      split <;> exact Nat.le_refl _

theorem isAlive_along {events : List (RegistrationEvent φ)}
    (h : ∀ event ∈ events, event.isDeath = false) (ho : o ∈ run.objects) :
    o ∈ (run.along events).objects ∧ (run.along events).isAlive o = run.isAlive o := by
  induction events generalizing run with
  | nil => exact ⟨ho, rfl⟩
  | cons event events ih =>
      obtain ⟨hevent, hevents⟩ := List.forall_mem_cons.mp h
      obtain ⟨hmem, halive⟩ := ih hevents (objects_step event o ho)
      exact ⟨hmem, halive.trans (isAlive_step hevent ho)⟩

theorem finalizers_along {events : List (RegistrationEvent φ)}
    (h : events.filter (·.isRequest) = []) :
    (run.along events).space.finalizers = run.space.finalizers := by
  induction events generalizing run with
  | nil => rfl
  | cons event events ih =>
      cases hevent : event.isRequest with
      | true => simp [hevent] at h
      | false =>
          have hrest : events.filter (·.isRequest) = [] := by simpa [hevent] using h
          exact (ih hrest).trans (finalizers_step hevent)

end RegistrationRun

namespace FinalizerTable

variable {table : FinalizerTable φ} {alive alive' : ObjectRef → Bool} {o : ObjectRef}

theorem mem_all_of_lookup {address : Nat} {entry : FinalizerEntry φ}
    (h : table.entries.lookup address = some entry) : entry ∈ table.all :=
  mem_all.mpr (.inr ⟨address, mem_of_lookup h⟩)

theorem define_congr (h : ∀ entry ∈ table.all, alive entry.object = alive' entry.object) (id : Nat)
    (finalizer : φ) : table.define alive o id finalizer = table.define alive' o id finalizer := by
  unfold define
  split
  · next entry hlookup => rw [h entry (mem_all_of_lookup hlookup)]
  · rfl

theorem undefine_congr (h : ∀ entry ∈ table.all, alive entry.object = alive' entry.object) :
    table.undefine alive o = table.undefine alive' o := by
  unfold undefine
  split
  · next entry hlookup => rw [h entry (mem_all_of_lookup hlookup)]
  · rfl

theorem takeDead_congr (h : ∀ entry ∈ table.all, alive entry.object = alive' entry.object) :
    table.takeDead alive = table.takeDead alive' := by
  have hsame : ∀ e ∈ table.entries, alive e.2.object = alive' e.2.object := by
    intro e he
    exact h e.2 (mem_all.mpr (.inr ⟨e.1, he⟩))
  have hkept := List.filter_congr hsame
  have hdead : table.entries.filter (fun e => !alive e.2.object) =
      table.entries.filter fun e => !alive' e.2.object := by
    refine List.filter_congr fun e he => ?_
    rw [hsame e he]
  simp only [takeDead, hkept, hdead]

end FinalizerTable

namespace Session

/-- A space has come to where a run of registrations has, and its objects live and die with those of
the run. -/
structure World.Agrees (w : World) (held : List ObjectRef) (i : Nat)
    (history : RegistrationRun Finalizer) : Prop where
  finalizers_eq : (w.space i).finalizers = history.space.finalizers
  isAlive_eq : ∀ o ∈ history.objects, w.isAlive held o = history.isAlive o

theorem World.Agrees.takeDead_eq {w : World} {held : List ObjectRef} {i : Nat}
    {history : RegistrationRun Finalizer} (h : w.Agrees held i history) (hsound : history.Sound) :
    (w.space i).finalizers.takeDead (w.isAlive held) =
      history.space.finalizers.takeDead history.isAlive := by
  rw [h.finalizers_eq]
  exact FinalizerTable.takeDead_congr fun entry hentry =>
    h.isAlive_eq _ (hsound.mem_objects hentry)

structure Store.Records (i : Nat) (history : RegistrationRun Finalizer) (store : Store) :
    Prop where
  sound : history.Sound
  heap_eq : store.heap = history.heap
  finalizers_eq : (store.spaces[i]?.getD {}).finalizers = history.space.finalizers
  objects : ∀ entry ∈ store.objects, entry.2 ∈ history.objects
  address_eq : ∀ o ∈ history.objects, o.address = o.serial
  spaces_pos : 0 < store.spaces.length
  spaceNames_lt : ∀ entry ∈ store.spaceNames, entry.2 < store.spaces.length

/-- What the store refers to may be referred to. So may all objects that are still to be made, and
none that has died. -/
structure Store.Follows (reach : Reach) (i : Nat) (history : RegistrationRun Finalizer)
    (store : Store) : Prop extends Store.Records i history store where
  names : ∀ entry ∈ store.objects, reach.objects entry.2.serial
  bounded : ∀ entry ∈ store.bounded, reach.queues entry.2
  values : ∀ map ∈ store.weakKeyMaps, ∀ entry ∈ map.entries, entry.2.value.Within reach
  fresh : ∀ serial, history.heap.nextSerial ≤ serial → reach.objects serial
  dead : ∀ o ∈ history.dead, ¬ reach.objects o.serial

namespace Store.Follows

variable {reach : Reach} {i : Nat} {history : RegistrationRun Finalizer} {store : Store}
  {o : ObjectRef}

theorem isAlive (h : store.Follows reach i history) (ho : o ∈ history.objects)
    (hreach : reach.objects o.serial) : history.isAlive o :=
  RegistrationRun.isAlive_iff.mpr ⟨ho, fun hdead => h.dead o hdead hreach⟩

theorem step (h : store.Follows reach i history) {event : RegistrationEvent Finalizer}
    (hdeath : event.isDeath = false)
    (hplace : ∀ address className payload, event = .allocate address className payload →
      address = history.heap.nextSerial) {heap : Heap} {spaces : List (ObjectSpace Finalizer)}
    (hheap : heap = (history.step event).heap) (hspaces : spaces.length = store.spaces.length)
    (hfinalizers : (spaces[i]?.getD {}).finalizers = (history.step event).space.finalizers) :
    { store with heap, spaces }.Follows reach i (history.step event) where
  sound := h.sound.step event
  heap_eq := hheap
  finalizers_eq := hfinalizers
  objects entry hmem := history.objects_step event _ (h.objects entry hmem)
  address_eq o ho := by
    rcases RegistrationRun.mem_objects_step ho with ho | ⟨hserial, _, _, hevent⟩
    · exact h.address_eq o ho
    · exact (hplace _ _ _ hevent).trans hserial.symm
  spaces_pos := hspaces ▸ h.spaces_pos
  spaceNames_lt entry hmem := hspaces ▸ h.spaceNames_lt entry hmem
  names := h.names
  bounded := h.bounded
  values := h.values
  fresh serial hle := h.fresh serial (Nat.le_trans (history.nextSerial_step h.sound event) hle)
  dead := by
    rw [RegistrationRun.dead_step hdeath]
    exact h.dead

theorem step_heap (h : store.Follows reach i history) {event : RegistrationEvent Finalizer}
    (hdeath : event.isDeath = false) (hrequest : event.isRequest = false)
    (hplace : ∀ address className payload, event = .allocate address className payload →
      address = history.heap.nextSerial) {heap : Heap}
    (hheap : heap = (history.step event).heap) :
    { store with heap }.Follows reach i (history.step event) := by
  have hkept : (history.step event).space.finalizers = history.space.finalizers :=
    RegistrationRun.finalizers_step hrequest
  exact h.step hdeath hplace hheap rfl (h.finalizers_eq.trans hkept.symm)

end Store.Follows

/-- A world leads on from a history by events that are no deaths. Those about finalizers are the
requests. The objects that the step holds are known. -/
def World.Comes (reach : Reach) (i : Nat) (history : RegistrationRun Finalizer)
    (requests : List (RegistrationEvent Finalizer)) (held : List ObjectRef) (w : World) : Prop :=
  ∃ events, events.filter (·.isRequest) = requests ∧
    (∀ event ∈ events, event.isDeath = false) ∧ w.store.Follows reach i (history.along events) ∧
    ∀ o ∈ held, o ∈ (history.along events).objects ∧ reach.objects o.serial

namespace World

variable {reach : Reach} {i : Nat} {history : RegistrationRun Finalizer} {w w' : World}
  {requests : List (RegistrationEvent Finalizer)} {held held' : List ObjectRef}

theorem Comes.start (h : w.store.Follows reach i history) : w.Comes reach i history [] [] :=
  ⟨[], rfl, List.forall_mem_nil _, h, List.forall_mem_nil _⟩

theorem Comes.same (h : w.Comes reach i history requests held)
    (hnext : ∀ history, w.store.Follows reach i history →
      (∀ o ∈ held, o ∈ history.objects ∧ reach.objects o.serial) →
      w'.store.Follows reach i history) : w'.Comes reach i history requests held := by
  obtain ⟨events, hrequests, hdeath, hfollows, hheld⟩ := h
  exact ⟨events, hrequests, hdeath, hnext _ hfollows hheld, hheld⟩

theorem Comes.of_store (h : w.Comes reach i history requests held) (hstore : w'.store = w.store) :
    w'.Comes reach i history requests held :=
  h.same fun _ hfollows _ => hstore ▸ hfollows

theorem Comes.release (h : w.Comes reach i history requests held) :
    w.Comes reach i history requests [] := by
  obtain ⟨events, hrequests, hdeath, hfollows, -⟩ := h
  exact ⟨events, hrequests, hdeath, hfollows, List.forall_mem_nil _⟩

/-- One more event, by which the step may come to hold more objects. -/
theorem Comes.step (h : w.Comes reach i history requests held) (held' : List ObjectRef)
    (event : RegistrationEvent Finalizer) (hdeath : event.isDeath = false)
    (hnext : ∀ history, w.store.Follows reach i history →
      (∀ o ∈ held, o ∈ history.objects ∧ reach.objects o.serial) →
      w'.store.Follows reach i (history.step event) ∧
        ∀ o ∈ held', o ∈ (history.step event).objects ∧ reach.objects o.serial) :
    w'.Comes reach i history (requests ++ [event].filter (·.isRequest)) (held' ++ held) := by
  obtain ⟨events, rfl, hnodeath, hfollows, hheld⟩ := h
  obtain ⟨hfollows', hheld'⟩ := hnext _ hfollows hheld
  refine ⟨events ++ [event], List.filter_append _ _, ?_, ?_, ?_⟩
  · intro e he
    rcases List.mem_append.mp he with he | he
    · exact hnodeath e he
    · rw [List.mem_singleton.mp he, hdeath]
  · rw [RegistrationRun.along_append]
    exact hfollows'
  · rw [RegistrationRun.along_append]
    intro o ho
    rcases List.mem_append.mp ho with ho | ho
    · exact hheld' o ho
    · exact ⟨RegistrationRun.objects_step event o (hheld o ho).1, (hheld o ho).2⟩

theorem step_allocate (h : w.store.Follows reach i history) (className : String)
    (payload : Option String) :
    history.step (.allocate w.heap.nextSerial className payload) =
      { history with
        heap := (w.heap.allocate className payload).2
        objects := (w.heap.allocate className payload).1 :: history.objects } := by
  have hheap : w.heap = history.heap := h.heap_eq
  -- No address is used again, because addresses are serial numbers here.
  have hfree : (history.objects.any fun o =>
      history.isAlive o && o.address == w.heap.nextSerial) = false := by
    rw [List.any_eq_false]
    intro o ho
    have hlt := h.sound.serial_lt o ho
    rw [← h.address_eq o ho, ← hheap] at hlt
    simp [Nat.ne_of_lt hlt]
  rw [RegistrationRun.step, hfree, if_neg Bool.false_ne_true, ← hheap]
  rfl

theorem Comes.allocate (h : w.Comes reach i history requests held) (className : String)
    (payload : Option String) :
    { w with heap := (w.heap.allocate className payload).2 }.Comes reach i history requests
      ((w.heap.allocate className payload).1 :: held) := by
  rw [← List.append_nil requests, ← List.singleton_append]
  refine h.step [_] (.allocate w.heap.nextSerial className payload) rfl ?_
  intro history hfollows _
  have hstep := step_allocate hfollows className payload
  have hheap : w.heap = history.heap := hfollows.heap_eq
  refine ⟨hfollows.step_heap rfl rfl (by simp [hheap]) (congrArg RegistrationRun.heap hstep).symm,
    List.forall_mem_singleton.mpr ⟨?_, ?_⟩⟩
  · rw [hstep]
    exact List.mem_cons_self
  · exact hfollows.fresh _ (Nat.le_of_eq (congrArg Heap.nextSerial hheap).symm)

theorem Comes.named (h : w.Comes reach i history requests held) {name : String} {o : ObjectRef}
    (hname : w.names.objects.lookup name = some o) :
    w.Comes reach i history requests (o :: held) := by
  obtain ⟨events, hrequests, hdeath, hfollows, hheld⟩ := h
  have hmem := mem_of_lookup hname
  exact ⟨events, hrequests, hdeath, hfollows, List.forall_mem_cons.mpr
    ⟨⟨hfollows.objects _ hmem, hfollows.names _ hmem⟩, hheld⟩⟩

theorem Comes.evaluate (h : w.Comes reach i history requests held) (spec : ValueSpec) :
    (w.evaluate spec).2.Comes reach i history requests
      (objectsOf [(w.evaluate spec).1] ++ held) := by
  cases spec with
  | immediate v => cases v <;> exact h
  | named name =>
      simp only [World.evaluate]
      cases hname : w.names.objects.lookup name with
      | none => exact h
      | some o => exact h.named hname
  | fresh className payload => exact h.allocate className payload

private theorem finalizers_set {spaces : List (ObjectSpace Finalizer)} {i j : Nat}
    {space : ObjectSpace Finalizer}
    (h : j = i → space.finalizers = (spaces[j]?.getD {}).finalizers) :
    ((spaces.set j space)[i]?.getD {}).finalizers = (spaces[i]?.getD {}).finalizers := by
  rw [List.getElem?_set]
  split
  · next hj =>
    subst hj
    split
    · exact h rfl
    · next hlength => rw [List.getElem?_eq_none (Nat.le_of_not_lt hlength)]
  · rfl

theorem Comes.setSpace (h : w.Comes reach i history requests held) {j : Nat}
    {space : ObjectSpace Finalizer}
    (hspace : j = i → space.finalizers = (w.space j).finalizers) :
    (w.setSpace j space).Comes reach i history requests held :=
  h.same fun _ hfollows _ => { hfollows with
    finalizers_eq := (finalizers_set hspace).trans hfollows.finalizers_eq
    spaces_pos := (List.length_set ..).symm ▸ hfollows.spaces_pos
    spaceNames_lt := (List.length_set ..).symm ▸ hfollows.spaceNames_lt }

theorem Comes.identify (h : w.Comes reach i history requests held) {o : ObjectRef}
    (ho : o ∈ held) (me : Nat) (ids : IdTable) :
    { w with heap := (objectId? me o w.heap ids).2.1 }.Comes reach i history requests held := by
  rw [← List.append_nil requests]
  refine h.step [] (.identify me o ids) rfl fun history hfollows hheld => ?_
  refine ⟨hfollows.step_heap rfl rfl (by simp) ?_, List.forall_mem_nil _⟩
  have halive := hfollows.isAlive (hheld o ho).1 (hheld o ho).2
  have hheap : w.heap = history.heap := hfollows.heap_eq
  rw [RegistrationRun.step, if_pos halive, hheap]

theorem world_replyId (w : World) (scope : Scope) (j : Nat) (v : Value) :
    (w.replyId scope j v).world =
      ({ w with heap := ((w.space j).idOf? scope.me v w.heap).2.1 } : World).setSpace j
        ((w.space j).idOf? scope.me v w.heap).2.2 := by
  unfold World.replyId
  split <;> simp [*]

theorem Comes.replyId (h : w.Comes reach i history requests held) {v : Value}
    (hv : ∀ o, v = .object o → o ∈ held) (scope : Scope) (j : Nat) :
    (w.replyId scope j v).world.Comes reach i history requests held := by
  rw [world_replyId]
  cases v with
  | object o => exact (h.identify (hv o rfl) scope.me (w.space j).ids).setSpace fun _ => rfl
  | symbol name =>
      simp only [ObjectSpace.idOf?]
      split <;> exact h.setSpace fun _ => rfl
  | _ => exact h.setSpace fun _ => rfl

theorem isAlive_evaluate (w : World) (spec : ValueSpec) :
    (w.evaluate spec).2.isAlive = w.isAlive := by
  cases spec <;> rfl

theorem spaceNamed_evaluate (w : World) (spec : ValueSpec) (name : Option String) :
    (w.evaluate spec).2.spaceNamed name = w.spaceNamed name := by
  cases spec <;> rfl

theorem isAlive_cons (w : World) (o : ObjectRef) (held : List ObjectRef) (p : ObjectRef) :
    w.isAlive (o :: held) p = (o.serial == p.serial || w.isAlive held p) := by
  simp [isAlive, holdsDirectly, Bool.or_assoc]

private theorem isAlive_held {history' : RegistrationRun Finalizer} {o p : ObjectRef}
    (h : w.store.Follows reach i history') (ho : o ∈ history'.objects ∧ reach.objects o.serial)
    (hp : p ∈ history'.objects) (hlives : w.isAlive held p = history'.isAlive p) :
    w.isAlive (o :: held) p = history'.isAlive p := by
  rw [isAlive_cons, hlives]
  by_cases hserial : o.serial = p.serial
  · rw [← h.sound.serial_inj o ho.1 p hp hserial, h.isAlive ho.1 ho.2, Bool.or_true]
  · rw [beq_false_of_ne hserial, Bool.false_or]

theorem Comes.spaceNamed_lt (h : w.Comes reach i history requests held) (name : Option String) :
    w.spaceNamed name < w.spaces.length := by
  obtain ⟨events, -, -, hfollows, -⟩ := h
  unfold spaceNamed
  cases hname : name.bind fun name => w.names.spaces.lookup name with
  | none => exact hfollows.spaces_pos
  | some j =>
      obtain ⟨name, -, hlookup⟩ := Option.bind_eq_some_iff.mp hname
      exact hfollows.spaceNames_lt _ (mem_of_lookup hlookup)

private theorem follows_setSpace (h : w.store.Follows reach i history)
    (hlength : i < w.spaces.length) {event : RegistrationEvent Finalizer}
    (hdeath : event.isDeath = false) (hrequest : event.isRequest) {space : ObjectSpace Finalizer}
    (hheap : w.heap = (history.step event).heap)
    (hspace : space.finalizers = (history.step event).space.finalizers) :
    (w.setSpace i space).store.Follows reach i (history.step event) := by
  refine h.step hdeath ?_ hheap (List.length_set ..) ?_
  · rintro address className payload rfl
    cases hrequest
  · show ((w.spaces.set i space)[i]?.getD {}).finalizers = _
    rw [List.getElem?_set_self hlength]
    exact hspace

/-- The first request of a step finds the table as it was before the step. -/
private theorem Comes.request (h : w.Comes reach i history [] held) (hsound : history.Sound)
    (hlives : ∀ p ∈ history.objects, w.isAlive held' p = history.isAlive p) {o : ObjectRef}
    (ho : o ∈ held) (hlength : i < w.spaces.length) {event : RegistrationEvent Finalizer}
    (hdeath : event.isDeath = false) (hrequest : event.isRequest) {space : ObjectSpace Finalizer}
    (hnext : ∀ history', w.store.Follows reach i history' → history'.isAlive o →
      (∀ entry ∈ (w.space i).finalizers.all,
        w.isAlive (o :: held') entry.object = history'.isAlive entry.object) →
      w.heap = (history'.step event).heap ∧
        space.finalizers = (history'.step event).space.finalizers) :
    (w.setSpace i space).Comes reach i history [event] [] := by
  obtain ⟨events, hrequests, hnodeath, hfollows, hheld⟩ := h
  have htable : (w.space i).finalizers = history.space.finalizers :=
    hfollows.finalizers_eq.trans (RegistrationRun.finalizers_along hrequests)
  have hentries : ∀ entry ∈ (w.space i).finalizers.all,
      w.isAlive (o :: held') entry.object = (history.along events).isAlive entry.object := by
    intro entry hentry
    have hobject := hsound.mem_objects (htable ▸ hentry)
    obtain ⟨hmem, halive⟩ := RegistrationRun.isAlive_along hnodeath hobject
    exact isAlive_held hfollows (hheld o ho) hmem ((hlives _ hobject).trans halive.symm)
  obtain ⟨hheap, hfinalizers⟩ :=
    hnext _ hfollows (hfollows.isAlive (hheld o ho).1 (hheld o ho).2) hentries
  refine ⟨events ++ [event], ?_, ?_, ?_, List.forall_mem_nil _⟩
  · rw [List.filter_append, hrequests]
    simp [hrequest]
  · intro e he
    rcases List.mem_append.mp he with he | he
    · exact hnodeath e he
    · rw [List.mem_singleton.mp he, hdeath]
  · rw [RegistrationRun.along_append]
    exact follows_setSpace hfollows hlength hdeath hrequest hheap hfinalizers

theorem Comes.define (h : w.Comes reach i history [] held) (hsound : history.Sound)
    (hlives : ∀ p ∈ history.objects, w.isAlive held' p = history.isAlive p) {o : ObjectRef}
    (ho : o ∈ held) (hlength : i < w.spaces.length) (me : Nat) {id : Nat} {heap : Heap}
    {ids : IdTable} (hid : objectId? me o w.heap (w.space i).ids = (some id, heap, ids))
    (finalizer : Finalizer) :
    (({ w with heap } : World).setSpace i { w.space i with
      ids
      finalizers := (w.space i).finalizers.define (w.isAlive (o :: held')) o id finalizer }).Comes
        reach i history [.define me o finalizer] [] := by
  have hidentified := h.identify ho me (w.space i).ids
  rw [hid] at hidentified
  have hread : heap.readId o = id ∧ id ≠ 0 := by
    obtain ⟨events, -, -, hfollows, -⟩ := h
    have hheap : w.heap = (history.along events).heap := hfollows.heap_eq
    have hfree : (w.heap.state o).lockedBy = none := hheap ▸ hfollows.sound.unlocked o
    have hrequested : Requested (.object o) w.heap (w.space i).ids _ _ _ :=
      objectId?_requested me hfree
    rw [hid] at hrequested
    exact (RegistrationRun.readId_of_requested hrequested).2.2.2 id rfl
  -- The history draws the id first, so that its definition finds the id that the step has drawn.
  refine hidentified.request hsound hlives ho hlength rfl rfl
    fun history' hfollows halive hentries => ?_
  have hheap : history'.heap = heap := hfollows.heap_eq.symm
  have htable : history'.space.finalizers = (w.space i).finalizers := hfollows.finalizers_eq.symm
  have hne : heap.readId o ≠ 0 := hread.1 ▸ hread.2
  rw [RegistrationRun.step, if_pos halive]
  simp only [RegistrationRun.define, hheap, objectId?_of_readId me hne, htable, hread.1, true_and]
  exact FinalizerTable.define_congr hentries id finalizer

theorem Comes.undefine (h : w.Comes reach i history [] held) (hsound : history.Sound)
    (hlives : ∀ p ∈ history.objects, w.isAlive held' p = history.isAlive p) {o : ObjectRef}
    (ho : o ∈ held) (hlength : i < w.spaces.length) :
    (w.setSpace i { w.space i with
      finalizers := ((w.space i).finalizers.undefine (w.isAlive (o :: held')) o).2 }).Comes
        reach i history [.undefine o] [] := by
  refine h.request hsound hlives ho hlength rfl rfl fun history' hfollows halive hentries => ?_
  have htable : history'.space.finalizers = (w.space i).finalizers := hfollows.finalizers_eq.symm
  rw [RegistrationRun.step, if_pos halive]
  refine ⟨hfollows.heap_eq, ?_⟩
  dsimp only
  rw [htable, FinalizerTable.undefine_congr hentries]

end World

def FinalizerRun.event : FinalizerRun → RegistrationEvent Finalizer
  | .pending _ => .runPending
  | .all _ => .runAll
  | .collect _ => .collect

def World.spaceOf (w : World) : FinalizerRun → Nat
  | .pending name | .all name | .collect name => w.spaceNamed name

/-- What a step asks of space `i` about finalizers. A definition counts if it succeeds. -/
def SpaceOp.requests (i : Nat) (scope : Scope) (w : World) :
    SpaceOp Body → List (RegistrationEvent Finalizer)
  | .defineFinalizer space v label body =>
    match ((SpaceOp.defineFinalizer space v label body).perform scope w).result with
    | .ok _ =>
      if w.spaceNamed space = i then
        (objectsOf [(w.evaluate v).1]).map (.define scope.me · ⟨label, body⟩)
      else []
    | .error _ => []
  | .undefineFinalizer space v =>
    if w.spaceNamed space = i then (objectsOf [(w.evaluate v).1]).map .undefine else []
  | _ => []

def Op.requests (i : Nat) (scope : Scope) (w : World) : Op → List (RegistrationEvent Finalizer)
  | .space op => op.requests i scope w
  | .call (.finalize run) => if w.spaceOf run = i then [run.event] else []
  | _ => []

section Operations

variable {reach : Reach} {i : Nat} {history : RegistrationRun Finalizer} {w w' : World}
  {requests : List (RegistrationEvent Finalizer)} {held : List ObjectRef}

theorem World.world_nextFinalizer (w : World) (stack : List Frame)
    (calls : List (Nat × Finalizer)) (ran : Nat) : (w.nextFinalizer stack calls ran).world = w := by
  cases calls with
  | nil => rfl
  | cons call rest =>
      simp only [nextFinalizer, startBody, BodyRun.proceed]
      split <;> rfl

theorem World.comes_startFinalizers (h : w.store.Follows reach i history)
    (hlives : ∀ p ∈ history.objects, w.isAlive held p = history.isAlive p) (stack : List Frame)
    (run : FinalizerRun) :
    (w.startFinalizers held stack run).world.Comes reach i history
      (if w.spaceOf run = i then [run.event] else []) [] := by
  have hagrees : w.Agrees held i history := ⟨h.finalizers_eq, hlives⟩
  have hlength := (World.Comes.start h).spaceNamed_lt
  have hset : ∀ {event : RegistrationEvent Finalizer} {space : ObjectSpace Finalizer} {name},
      event.isDeath = false → event.isRequest → (history.step event).heap = history.heap →
      (w.spaceNamed name = i → space.finalizers = (history.step event).space.finalizers) →
      (w.setSpace (w.spaceNamed name) space).Comes reach i history
        (if w.spaceNamed name = i then [event] else []) [] := by
    intro event space name hdeath hrequest hheap hspace
    split
    · next hname =>
      refine ⟨[event], by simp [hrequest], by simpa using hdeath, ?_, List.forall_mem_nil _⟩
      have hfollows := follows_setSpace h (hname ▸ hlength name) hdeath hrequest
        (h.heap_eq.trans hheap.symm) (hspace hname)
      rw [hname]
      exact hfollows
    · next hname => exact (World.Comes.start h).setSpace fun heq => absurd heq hname
  unfold startFinalizers
  dsimp only
  rw [world_nextFinalizer]
  cases run with
  | pending name | collect name =>
      refine hset rfl rfl rfl ?_
      rintro rfl
      exact congrArg Prod.snd (hagrees.takeDead_eq h.sound)
  | all name => exact hset rfl rfl rfl fun _ => rfl

theorem World.comes_withObject (h : w.Comes reach i history requests []) (name : String)
    {f : ObjectRef → Reply} (hf : ∀ o, w.Comes reach i history requests [o] →
      (f o).world.Comes reach i history requests []) :
    (w.withObject name f).world.Comes reach i history requests [] := by
  unfold World.withObject
  split
  · next o hname => exact hf o (h.named hname)
  · exact h

theorem World.comes_nameObject {o : ObjectRef} (h : w.Comes reach i history requests [o])
    (name : String) : (w.nameObject name o).Comes reach i history requests [] := by
  suffices hnamed : (w.nameObject name o).Comes reach i history requests [o] from hnamed.release
  refine h.same fun history hfollows hheld => ?_
  obtain ⟨hmem, hreach⟩ := hheld o (List.mem_singleton_self o)
  have hentries : ∀ entry ∈ setNamed name o w.names.objects,
      entry = (name, o) ∨ entry ∈ w.names.objects := by
    intro entry hentry
    rcases List.mem_cons.mp hentry with rfl | hentry
    · exact .inl rfl
    · exact .inr (List.mem_of_mem_filter hentry)
  exact { hfollows with
    objects := fun entry hentry => by
      rcases hentries entry hentry with rfl | hentry
      · exact hmem
      · exact hfollows.objects entry hentry
    names := fun entry hentry => by
      rcases hentries entry hentry with rfl | hentry
      · exact hreach
      · exact hfollows.names entry hentry }

theorem World.Comes.share {o : ObjectRef} (h : w.Comes reach i history requests held)
    (ho : o ∈ held) :
    { w with heap := w.heap.share o }.Comes reach i history requests held := by
  rw [← List.append_nil requests]
  refine h.step [] (.share o) rfl fun history hfollows hheld => ?_
  refine ⟨hfollows.step_heap rfl rfl (by simp) ?_, List.forall_mem_nil _⟩
  have halive := hfollows.isAlive (hheld o ho).1 (hheld o ho).2
  have hheap : w.heap = history.heap := hfollows.heap_eq
  rw [RegistrationRun.step, if_pos halive, hheap]

theorem ObjectOp.comes_perform (op : ObjectOp) (h : w.store.Follows reach i history) :
    (op.perform w).world.Comes reach i history [] [] := by
  have hstart := World.Comes.start h
  match op with
  | .new name className payload shared =>
      have hallocated := hstart.allocate className payload
      simp only [ObjectOp.perform]
      split
      · exact World.comes_nameObject (hallocated.share List.mem_cons_self) name
      · exact World.comes_nameObject hallocated name
  | .alias name source =>
      exact World.comes_withObject hstart source fun o ho => World.comes_nameObject ho name
  | .drop name =>
      refine hstart.same fun history hfollows _ => ?_
      exact { hfollows with
        objects := fun entry hentry => hfollows.objects entry (List.mem_of_mem_filter hentry)
        names := fun entry hentry => hfollows.names entry (List.mem_of_mem_filter hentry) }
  | .share name =>
      exact World.comes_withObject hstart name fun o ho => (ho.share List.mem_cons_self).release
  | .info name => exact World.comes_withObject hstart name fun o ho => ho.release
  | .compare a b => exact ((hstart.evaluate a).evaluate b).release
  | .inspect v => exact (hstart.evaluate v).release

private theorem follows_create (h : w.store.Follows reach i history) (name : String)
    (space : ObjectSpace Finalizer) (hspace : space.finalizers = {}) :
    { w.store with
      spaces := w.spaces ++ [space]
      spaceNames := setNamed name w.spaces.length w.names.spaces }.Follows reach i history :=
  { h with
    finalizers_eq := by
      refine Eq.trans ?_ h.finalizers_eq
      show (((w.spaces ++ [space])[i]?).getD {}).finalizers = ((w.spaces[i]?).getD {}).finalizers
      rcases Nat.lt_trichotomy i w.spaces.length with hlt | rfl | hgt
      · rw [List.getElem?_append_left hlt]
      · simpa using hspace
      · rw [List.getElem?_eq_none (by simp; omega), List.getElem?_eq_none (Nat.le_of_lt hgt)]
    spaces_pos := by simp
    spaceNames_lt := fun entry hentry => by
      rw [List.length_append, List.length_singleton]
      rcases List.mem_cons.mp hentry with rfl | hentry
      · exact Nat.lt_succ_self _
      · exact Nat.lt_succ_of_lt (h.spaceNames_lt entry (List.mem_of_mem_filter hentry)) }

section Finalizers

variable {scope : Scope} (h : w.store.Follows reach i history)
  (hlives : ∀ p ∈ history.objects, w.isAlive scope.held p = history.isAlive p)
  (space : Option String) (v : ValueSpec)

include h hlives

private theorem comes_defineFinalizer (label : String) (body : Body) :
    ((SpaceOp.defineFinalizer space v label body).perform scope w).world.Comes reach i history
      ((SpaceOp.defineFinalizer space v label body).requests i scope w) [] := by
  have hheld := (World.Comes.start h).evaluate v
  have hlives' := w.isAlive_evaluate v
  have hname := w.spaceNamed_evaluate v space
  simp only [SpaceOp.requests, SpaceOp.perform]
  generalize w.evaluate v = evaluated at hheld hlives' hname ⊢
  obtain ⟨value, w'⟩ := evaluated
  dsimp only at hheld hlives' hname ⊢
  cases value with
  | object o =>
      have ho : o ∈ objectsOf [Value.object o] ++ [] := List.mem_cons_self
      have hlength := hheld.spaceNamed_lt space
      have hidentified := hheld.identify ho scope.me (w'.space (w'.spaceNamed space)).ids
      dsimp only
      rw [hname] at hlength hidentified ⊢
      obtain ⟨id?, heap, ids, hid⟩ : ∃ id? heap ids, objectId? scope.me o w'.heap
        (w'.space (w.spaceNamed space)).ids = (id?, heap, ids) := ⟨_, _, _, rfl⟩
      rw [hid] at hidentified ⊢
      cases id? with
      | none =>
          dsimp only [World.panics]
          exact World.Comes.release (World.Comes.setSpace hidentified fun _ => rfl)
      | some id =>
          dsimp only [World.reply]
          split
          · next hi =>
            subst hi
            exact hheld.define h.sound (hlives' ▸ hlives) ho hlength scope.me hid ⟨label, body⟩
          · next hi => exact (hidentified.setSpace fun heq => absurd heq hi).release
  | _ => exact hheld

private theorem comes_undefineFinalizer :
    ((SpaceOp.undefineFinalizer space v).perform scope w).world.Comes reach i history
      ((SpaceOp.undefineFinalizer space v).requests i scope w) [] := by
  have hheld := (World.Comes.start h).evaluate v
  have hlives' := w.isAlive_evaluate v
  have hname := w.spaceNamed_evaluate v space
  simp only [SpaceOp.requests, SpaceOp.perform]
  generalize w.evaluate v = evaluated at hheld hlives' hname ⊢
  obtain ⟨value, w'⟩ := evaluated
  dsimp only at hheld hlives' hname ⊢
  cases value with
  | object o =>
      have ho : o ∈ objectsOf [Value.object o] ++ [] := List.mem_cons_self
      have hlength := hheld.spaceNamed_lt space
      dsimp only
      rw [hname] at hlength ⊢
      split
      · next hi =>
        subst hi
        exact hheld.undefine h.sound (hlives' ▸ hlives) ho hlength
      · next hi => exact (hheld.setSpace fun heq => absurd heq hi).release
  | _ =>
      dsimp only
      split <;> exact hheld

end Finalizers

theorem SpaceOp.comes_perform (op : SpaceOp Body) {scope : Scope}
    (h : w.store.Follows reach i history)
    (hlives : ∀ p ∈ history.objects, w.isAlive scope.held p = history.isAlive p) :
    (op.perform scope w).world.Comes reach i history (op.requests i scope w) [] := by
  have hstart := World.Comes.start h
  have hchange : ∀ {w : World} {space : Option String} {f},
      w.Comes reach i history [] [] →
        (w.changeAllocations space f).world.Comes reach i history [] [] :=
    fun h => h.setSpace fun _ => rfl
  have hobject : ∀ {v : Value} {o}, v = .object o → o ∈ objectsOf [v] ++ [] := by
    rintro v o rfl
    exact List.mem_cons_self
  match op with
  | .create name counter =>
      exact hstart.same fun history hfollows _ => follows_create hfollows name _ rfl
  | .nextId space =>
      simp only [SpaceOp.perform, SpaceOp.requests]
      split
      · exact hstart.setSpace fun _ => rfl
      · exact hstart
  | .objectId space v =>
      exact ((hstart.evaluate v).replyId (fun o ho => hobject ho) scope _).release
  | .heapId space obj =>
      exact World.comes_withObject hstart obj fun o ho =>
        (ho.replyId (fun p hp => by cases hp; exact List.mem_cons_self) scope _).release
  | .readId space obj => exact World.comes_withObject hstart obj fun o ho => ho.release
  | .idToValue space id =>
      simp only [SpaceOp.perform, SpaceOp.requests]
      split <;> exact hstart
  | .traceStart space | .traceStop space | .traceClear space => exact hchange hstart
  | .traceInfo space | .finalizerCount space => exact hstart
  | .trace space obj className method file line =>
      exact World.comes_withObject hstart obj fun o ho => hchange ho.release
  | .allocationInfo space obj =>
      refine World.comes_withObject hstart obj fun o ho => ?_
      dsimp only
      split <;> exact ho.release
  | .defineFinalizer space v label body => exact comes_defineFinalizer h hlives space v label body
  | .undefineFinalizer space v => exact comes_undefineFinalizer h hlives space v

end Operations

end Session

end RubyRuntime
