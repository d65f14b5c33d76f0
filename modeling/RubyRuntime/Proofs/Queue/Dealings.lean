import RubyRuntime.Proofs.Queue.Exchanges

/-!
# What is dealt with queues

What a queue accepts goes to its end, where there was room, and what it removes was at its front.
So what it holds at first and accepts in a run is what it removes and what it holds at the end, in
the same order.
-/
namespace RubyRuntime

variable {α : Type}

namespace BoundedQueue

def Sound (queue : BoundedQueue α) : Prop :=
  ∃ fifo, queue.Implements fifo

/-- A queue has dealt with items: what it has accepted has gone to the end, where there was room,
and what it has removed was at the front. -/
structure Deals (queue : BoundedQueue α) (d : Dealing α) (queue' : BoundedQueue α) : Prop where
  sound : queue'.Sound
  items : queue.contents ++ d.accepted = d.removed ++ queue'.contents
  room : d.accepted ≠ [] → queue.size < queue.capacity

variable {queue queue' other : BoundedQueue α} {d : Dealing α}

theorem Implements.deals {fifo fifo' : Fifo α} (h : queue.Implements fifo)
    (h' : queue'.Implements fifo') (hitems : fifo.items ++ d.accepted = d.removed ++ fifo'.items)
    (hroom : d.accepted ≠ [] → fifo.items.length < fifo.capacity) : queue.Deals d queue' where
  sound := ⟨fifo', h'⟩
  items := by
    rw [contents, contents, h.ring.toList_eq, h'.ring.toList_eq]
    exact hitems
  room := by
    rw [size, h.ring.size_eq, h.capacity_eq]
    exact hroom

theorem Deals.of_eq (h : other.Deals d queue') (hring : other.ring = queue.ring)
    (hcapacity : other.capacity = queue.capacity) : queue.Deals d queue' where
  sound := h.sound
  items := by simpa [contents, hring] using h.items
  room := by simpa [size, hring, hcapacity] using h.room

theorem Sound.of_eq (h : queue.Sound) (hring : other.ring = queue.ring)
    (hcapacity : other.capacity = queue.capacity) (hclosed : other.closed = queue.closed) :
    other.Sound :=
  let ⟨fifo, h⟩ := h
  ⟨fifo, h.of_eq hring hcapacity hclosed⟩

theorem Sound.deals_nothing (h : queue.Sound) : queue.Deals {} queue :=
  ⟨h, by simp, absurd rfl⟩

theorem Sound.deals_offer (h : queue.Sound) (item : α) :
    queue.Deals ((queue.offer item).1.dealing item) (queue.offer item).2 := by
  obtain ⟨fifo, h⟩ := h
  obtain ⟨hanswer, hafter⟩ := h.offer item
  rw [hanswer]
  refine h.deals hafter ?_ ?_ <;> unfold Fifo.offer
  · split
    · simp [Offer.dealing]
    · split <;> simp [Offer.dealing]
  · split
    · simp [Offer.dealing]
    · split
      · next hroom => exact fun _ => hroom
      · simp [Offer.dealing]

theorem Sound.deals_poll (h : queue.Sound) :
    queue.Deals (.ofPoll queue.poll.1) queue.poll.2 := by
  obtain ⟨fifo, h⟩ := h
  obtain ⟨hanswer, hafter⟩ := h.poll
  rw [hanswer]
  refine h.deals hafter ?_ (absurd rfl)
  cases hitems : fifo.items <;> simp [Fifo.poll, Dealing.ofPoll, hitems]

theorem Sound.deals_put (h : queue.Sound) (item : α) (ticket : Ticket) :
    queue.Deals (.ofPut item (queue.put item ticket).1) (queue.put item ticket).2 := by
  obtain ⟨fifo, h⟩ := h
  obtain ⟨hanswer, hafter⟩ := h.put item ticket
  rw [hanswer]
  refine h.deals hafter ?_ ?_ <;> unfold Fifo.put
  · split
    · simp [Dealing.ofPut]
    · split <;> simp [Dealing.ofPut]
  · split
    · simp [Dealing.ofPut]
    · split
      · next hroom => exact fun _ => hroom
      · simp [Dealing.ofPut]

theorem Sound.deals_take (h : queue.Sound) (late : Bool) (ticket : Ticket) :
    queue.Deals (.ofTake (queue.take late ticket).1) (queue.take late ticket).2 := by
  obtain ⟨fifo, h⟩ := h
  obtain ⟨hanswer, hafter⟩ := h.take late ticket
  rw [hanswer]
  have hfifo : (Dealing.ofTake (fifo.take late).1).accepted = [] ∧
      fifo.items = (Dealing.ofTake (fifo.take late).1).removed ++ (fifo.take late).2.items := by
    unfold Fifo.take
    split
    · next hitems => simp [Dealing.ofTake, Dealing.ofPoll, Taken.item?, hitems]
    · next hitems =>
      split
      · simp [Dealing.ofTake, Dealing.ofPoll, Taken.item?]
      · split <;> simp [Dealing.ofTake, Dealing.ofPoll]
  refine h.deals hafter ?_ ?_
  · rw [hfifo.1, List.append_nil]
    exact hfifo.2
  · rw [hfifo.1]
    exact absurd rfl

theorem Sound.deals_changeCapacity (h : queue.Sound) {slotBytes : Nat} {requested : Int}
    (hchange : queue.changeCapacity? slotBytes requested = .ok queue') : queue.Deals {} queue' := by
  obtain ⟨fifo, h⟩ := h
  exact h.deals (h.changeCapacity hchange).1 (by simp) (absurd rfl)

theorem Sound.deals_clear (h : queue.Sound) :
    queue.Deals { removed := queue.contents } queue.clear := by
  obtain ⟨fifo, h⟩ := h
  refine h.deals h.clear ?_ (absurd rfl)
  simp [contents, h.ring.toList_eq, Fifo.clear]

theorem Sound.deals_close (h : queue.Sound) : queue.Deals {} queue.close := by
  obtain ⟨fifo, h⟩ := h
  exact h.deals h.close (by simp [Fifo.close]) (absurd rfl)

theorem Exchange.deals (h : queue.Exchange d queue') (hsound : queue.Sound) :
    queue.Deals d queue' := by
  cases h with
  | offer item => exact hsound.deals_offer item
  | poll => exact hsound.deals_poll
  | put item ticket => exact hsound.deals_put item ticket
  | take late ticket => exact hsound.deals_take late ticket
  | changeCapacity h => exact hsound.deals_changeCapacity h
  | clear => exact hsound.deals_clear
  | close => exact hsound.deals_close

end BoundedQueue

namespace UnboundedQueue

def Deals (queue : UnboundedQueue α) (d : Dealing α) (queue' : UnboundedQueue α) : Prop :=
  queue.items ++ d.accepted = d.removed ++ queue'.items

variable (queue : UnboundedQueue α) {queue' : UnboundedQueue α}

theorem deals_addAll {items : List α} (h : queue.addAll? items = some queue') :
    queue.Deals (.ofAdd items true) queue' := by
  unfold addAll? at h
  split at h
  · cases h
  · cases h
    rfl

theorem deals_add {item : α} (h : queue.add? item = some queue') :
    queue.Deals (.ofAdd [item] true) queue' := by
  unfold add? at h
  split at h
  · cases h
  · cases h
    rfl

theorem deals_offer (item : α) :
    queue.Deals ((queue.offer item).1.dealing item) (queue.offer item).2 := by
  unfold offer
  split
  · next hadd => exact queue.deals_add hadd
  · exact List.append_nil _

theorem deals_poll : queue.Deals (.ofPoll queue.poll.1) queue.poll.2 := by
  cases hitems : queue.items <;> simp [Deals, poll, Dealing.ofPoll, hitems]

theorem deals_take (late : Bool) (ticket : Ticket) :
    queue.Deals (.ofTake (queue.take late ticket).1) (queue.take late ticket).2 := by
  unfold take
  split
  · next hitems => simp [Deals, Dealing.ofTake, Dealing.ofPoll, Taken.item?, hitems]
  · next hitems =>
    split
    · simp [Deals, Dealing.ofTake, Dealing.ofPoll, Taken.item?]
    · split <;> simp [Deals, Dealing.ofTake, Dealing.ofPoll, hitems]

theorem deals_clear : queue.Deals { removed := queue.items } queue.clear :=
  rfl

theorem deals_close : queue.Deals {} queue.close :=
  List.append_nil _

theorem Exchange.deals {queue : UnboundedQueue α} {d : Dealing α} (h : queue.Exchange d queue') :
    queue.Deals d queue' := by
  cases h with
  | add h => exact queue.deals_add h
  | addAll h => exact queue.deals_addAll h
  | offer item => exact queue.deals_offer item
  | poll => exact queue.deals_poll
  | take late ticket => exact queue.deals_take late ticket
  | clear => exact queue.deals_clear
  | close => exact queue.deals_close

end UnboundedQueue

namespace Session

namespace World

def contents (w : World) : QueueRef → List Value
  | .unbounded q => (w.queue q).items
  | .bounded q => (w.boundedQueue q).contents

def QueuesSound (w : World) : Prop :=
  ∀ q, (w.boundedQueue q).Sound

/-- Every queue has dealt with items as `d` says. -/
structure Trades (w : World) (d : QueueRef → Dealing Value) (w' : World) : Prop where
  unbounded : ∀ q, (w.queue q).Deals (d (.unbounded q)) (w'.queue q)
  bounded : ∀ q, (w.boundedQueue q).Deals (d (.bounded q)) (w'.boundedQueue q)

variable {w w' w'' : World} {d : QueueRef → Dealing Value}

theorem Trades.sound (h : w.Trades d w') : w'.QueuesSound :=
  fun q => (h.bounded q).sound

theorem Trades.contents (h : w.Trades d w') (r : QueueRef) :
    w.contents r ++ (d r).accepted = (d r).removed ++ w'.contents r := by
  cases r with
  | unbounded q => exact h.unbounded q
  | bounded q => exact (h.bounded q).items

theorem SameItems.contents (h : w.SameItems w') (r : QueueRef) : w'.contents r = w.contents r := by
  cases r with
  | unbounded q => exact h.items q
  | bounded q => rw [World.contents, World.contents, BoundedQueue.contents, h.ring q]; rfl

theorem SameItems.sound (h : w.SameItems w') (hw : w.QueuesSound) : w'.QueuesSound :=
  fun q => (hw q).of_eq (h.ring q) (h.capacity q) (h.closed (.bounded q))

theorem SameItems.trades (h : w.SameItems w') (htrades : w'.Trades d w'') : w.Trades d w'' where
  unbounded q := by
    have hdeals := htrades.unbounded q
    rwa [UnboundedQueue.Deals, h.items q] at hdeals
  bounded q := (htrades.bounded q).of_eq (h.ring q) (h.capacity q)

theorem QueuesSound.trades_nothing (hw : w.QueuesSound) : w.Trades (fun _ => {}) w where
  unbounded _ := List.append_nil _
  bounded q := (hw q).deals_nothing

theorem QueuesSound.trades_setQueue (hw : w.QueuesSound) {q : Nat} {queue : UnboundedQueue Value}
    {dealt : Dealing Value} (h : (w.queue q).Deals dealt queue) :
    w.Trades (QueueRef.only (.unbounded q) dealt) (w.setQueue q queue) where
  unbounded k := by
    rw [queue_setQueue]
    split
    · next hqk =>
      subst hqk
      rwa [QueueRef.only_self]
    · next hqk =>
      rw [QueueRef.only_of_ne dealt (by simpa using Ne.symm hqk)]
      exact List.append_nil _
  bounded k := by
    rw [QueueRef.only_of_ne dealt (by simp)]
    exact (hw k).deals_nothing

theorem QueuesSound.trades_setBounded (hw : w.QueuesSound) {q : Nat} {queue : BoundedQueue Value}
    {dealt : Dealing Value} (h : (w.boundedQueue q).Deals dealt queue) :
    w.Trades (QueueRef.only (.bounded q) dealt) (w.setBounded q queue) where
  unbounded k := by
    rw [QueueRef.only_of_ne dealt (by simp)]
    exact List.append_nil _
  bounded k := by
    rw [boundedQueue_setBounded]
    split
    · next hqk =>
      subst hqk
      rwa [QueueRef.only_self]
    · next hqk =>
      rw [QueueRef.only_of_ne dealt (by simpa using Ne.symm hqk)]
      exact (hw k).deals_nothing

theorem implements_unmadeBounded : unmadeBounded.Implements { capacity := 0 } :=
  ⟨Ring.Represents.empty Nat.zero_lt_one, rfl, rfl, Nat.zero_le _⟩

theorem QueuesSound.trades_append (hw : w.QueuesSound) {queue : BoundedQueue Value}
    {capacity : Nat} (h : queue.Implements { capacity }) (hqueues : w'.queues = w.queues)
    (hbounded : w'.bounded = w.bounded ++ [queue]) : w.Trades (fun _ => {}) w' where
  unbounded q := by
    rw [World.queue, World.queue, hqueues]
    exact List.append_nil _
  bounded q := by
    rcases Nat.lt_trichotomy q w.bounded.length with hlt | rfl | hgt
    · have hsame : w'.boundedQueue q = w.boundedQueue q := by
        rw [boundedQueue, boundedQueue, hbounded, List.getElem?_append_left hlt]
      rw [hsame]
      exact (hw q).deals_nothing
    · have hbefore : w.boundedQueue w.bounded.length = unmadeBounded := by simp [boundedQueue]
      have hafter : w'.boundedQueue w.bounded.length = queue := by simp [boundedQueue, hbounded]
      rw [hbefore, hafter]
      exact implements_unmadeBounded.deals h rfl (absurd rfl)
    · have hsame : w'.boundedQueue q = w.boundedQueue q := by
        have hnone : (w.bounded ++ [queue])[q]? = none :=
          List.getElem?_eq_none (by rw [List.length_append, List.length_singleton]; omega)
        rw [boundedQueue, boundedQueue, hbounded, hnone, List.getElem?_eq_none (by omega)]
      rw [hsame]
      exact (hw q).deals_nothing

/-- A step deals with queues as its answer shows. -/
theorem Exchange.trades (h : w.Exchange d w') (hw : w.QueuesSound) : w.Trades d w' := by
  cases h with
  | nothing hsame => exact hsame.trades (hsame.sound hw).trades_nothing
  | unbounded hsame h => exact hsame.trades ((hsame.sound hw).trades_setQueue h.deals)
  | bounded hsame h =>
      exact hsame.trades ((hsame.sound hw).trades_setBounded (h.deals (hsame.sound hw _)))
  | creates hsame h hqueues hbounded =>
      exact hsame.trades ((hsame.sound hw).trades_append h hqueues hbounded)

end World

namespace Machine

variable {m : Machine}

theorem trades_step (hm : m.world.QueuesSound) (me : Nat) :
    m.world.Trades (m.dealing me) (m.step me).world :=
  (m.exchange_step me).trades hm

def accepted (r : QueueRef) (m : Machine) (moves : List Move) : List Value :=
  m.log (fun m me => (m.dealing me r).accepted) moves

def removed (r : QueueRef) (m : Machine) (moves : List Move) : List Value :=
  m.log (fun m me => (m.dealing me r).removed) moves

/-- What a queue holds at first and accepts in a run is what it gives or drops and what it holds at
the end. -/
theorem contents_follow (hm : m.world.QueuesSound) (r : QueueRef) (moves : List Move) :
    m.world.contents r ++ m.accepted r moves =
      m.removed r moves ++ (m.follow moves).world.contents r := by
  -- What the first step accepts is at the end of the queue when the rest of the run begins.
  induction moves generalizing m with
  | nil => simp [accepted, removed, log]
  | cons move moves ih =>
      cases move with
      | tick millis => exact ih (m := m.tick millis) hm
      | step me =>
          have hstep := trades_step hm me
          calc
            m.world.contents r ++ ((m.dealing me r).accepted ++ (m.step me).accepted r moves)
              = (m.world.contents r ++ (m.dealing me r).accepted) ++
                  (m.step me).accepted r moves := by simp
            _ = (m.dealing me r).removed ++
                  ((m.step me).world.contents r ++ (m.step me).accepted r moves) := by
                rw [hstep.contents, List.append_assoc]
            _ = (m.dealing me r).removed ++ ((m.step me).removed r moves ++
                  ((m.step me).follow moves).world.contents r) := by rw [ih hstep.sound]
            _ = m.removed r (.step me :: moves) ++
                  (m.follow (.step me :: moves)).world.contents r := by
                simp [removed, log]

end Machine

theorem Script.queues_start (script : Script) :
    script.start.world.QueuesSound ∧ ∀ r, script.start.world.contents r = [] := by
  have hstill := script.still_start
  have hbounded : ∀ q, script.start.world.boundedQueue q = World.unmadeBounded := hstill.bounded
  refine ⟨fun q => ?_, fun r => ?_⟩
  · rw [hbounded q]
    exact ⟨_, World.implements_unmadeBounded⟩
  · cases r with
    | unbounded q => rw [World.contents, hstill.queue q]; rfl
    | bounded q => rw [World.contents, hbounded q]; rfl

end Session

end RubyRuntime
