import RubyRuntime.Error
import RubyRuntime.Queue.Outcome
import RubyRuntime.Queue.Ring
import RubyRuntime.Thread.WaitList

/-!
# Bounded queues

A closable first-in first-out queue on a ring buffer that accepts items only while it holds fewer
than its capacity. The capacity may change at any time; the ring then grows or shrinks, but never
below the items it holds. Room is announced to the producer that has been parked longest, an item to
the consumer; a new capacity, an emptied and a closed queue are announced to all.
-/
namespace RubyRuntime

/-- A queue of at most `capacity` items, with the numbers of producers and consumers that wait,
those included that have been notified and not come back yet. -/
structure BoundedQueue (α : Type) where
  ring : Ring α
  capacity : Nat
  closed : Bool := false
  waitingProducers : Nat := 0
  waitingConsumers : Nat := 0
  producers : WaitList := {}
  consumers : WaitList := {}

namespace BoundedQueue

/-- Why a capacity is not taken: it is refused, or so many slots cannot even be asked for, which is
a panic. -/
inductive CapacityFailure where
  | refused (e : Error)
  | overflow

variable {α : Type}

def capacity? (requested : Int) : Except Error Nat :=
  if requested ≤ 0 then .error Cause.capacityNotPositive.error
  else if requested ≥ Int.pow 2 64 then .error Cause.capacityTooBig.error
  else .ok requested.toNat

def new? (slotBytes : Nat) (requested : Int) : Except CapacityFailure (BoundedQueue α) :=
  match capacity? requested with
  | .error e => .error (.refused e)
  | .ok capacity =>
    match Ring.empty? slotBytes capacity with
    | some ring => .ok { ring, capacity }
    | none => .error .overflow

def size (queue : BoundedQueue α) : Nat :=
  queue.ring.size

def contents (queue : BoundedQueue α) : List α :=
  queue.ring.toList

def isFull (queue : BoundedQueue α) : Bool :=
  queue.size ≥ queue.capacity

def waiting (queue : BoundedQueue α) : Nat :=
  queue.waitingProducers + queue.waitingConsumers

/-- The ring with slots for the capacity and for all items. One that has as many is kept. -/
def resized? (slotBytes capacity : Nat) (queue : BoundedQueue α) : Option (Ring α) :=
  let length := max capacity queue.size
  if length = queue.ring.slots.size then some queue.ring
  else queue.ring.relinearize? slotBytes length

def changeCapacity? (slotBytes : Nat) (requested : Int) (queue : BoundedQueue α) :
    Except CapacityFailure (BoundedQueue α) :=
  match capacity? requested with
  | .error e => .error (.refused e)
  | .ok capacity =>
    match queue.resized? slotBytes capacity with
    | some ring => .ok { queue with
        ring
        capacity
        producers :=
          if capacity > queue.size then queue.producers.notifyAll else queue.producers }
    | none => .error .overflow

def offer (item : α) (queue : BoundedQueue α) : Offer α × BoundedQueue α :=
  if queue.closed then (.closed item, queue)
  else if queue.isFull then (.full item, queue)
  else (.success, { queue with
    ring := queue.ring.push item
    consumers := queue.consumers.notifyOne })

def poll (queue : BoundedQueue α) : Option α × BoundedQueue α :=
  match queue.ring.pop with
  | (some item, ring) => (some item, { queue with ring, producers := queue.producers.notifyOne })
  | (none, ring) => (none, { queue with ring })

/-- One critical section of a put: false when the queue is closed, true with the item appended when
there is room, else a park under the ticket. -/
def put (item : α) (ticket : Ticket) (queue : BoundedQueue α) : Attempt Bool × BoundedQueue α :=
  match queue.offer item with
  | (.success, queue) => (.done true, queue)
  | (.closed _, queue) => (.done false, queue)
  | (.full _, queue) => (.park, { queue with
    waitingProducers := queue.waitingProducers + 1
    producers := queue.producers.park ticket })

def unparkProducer (ticket : Ticket) (queue : BoundedQueue α) : BoundedQueue α :=
  { queue with
    waitingProducers := queue.waitingProducers - 1
    producers := queue.producers.leave ticket }

def take (late : Bool) (ticket : Ticket) (queue : BoundedQueue α) :
    Attempt (Option (Taken α)) × BoundedQueue α :=
  match queue.poll with
  | (some item, queue) => (.done (some (.item item)), queue)
  | (none, queue) =>
    if queue.closed then (.done (some .closed), queue)
    else if late then (.done none, queue)
    else (.park, { queue with
      waitingConsumers := queue.waitingConsumers + 1
      consumers := queue.consumers.park ticket })

def unparkConsumer (ticket : Ticket) (queue : BoundedQueue α) : BoundedQueue α :=
  { queue with
    waitingConsumers := queue.waitingConsumers - 1
    consumers := queue.consumers.leave ticket }

def clear (queue : BoundedQueue α) : BoundedQueue α :=
  { queue with
    ring := drain queue.ring.size queue.ring
    producers := queue.producers.notifyAll }
where
  drain : Nat → Ring α → Ring α
    | 0, ring => ring
    | n + 1, ring => drain n ring.pop.2

def close (queue : BoundedQueue α) : BoundedQueue α :=
  { queue with
    closed := true
    producers := queue.producers.notifyAll
    consumers := queue.consumers.notifyAll }

end BoundedQueue

end RubyRuntime
