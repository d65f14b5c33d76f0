import RubyRuntime.Queue.Outcome
import RubyRuntime.Thread.WaitList

/-!
# Unbounded queues

A closable first-in first-out queue. A closed queue accepts nothing more and reports the close once
its items are gone. A new item is announced to the consumer that has been parked longest, several
items and the close to all of them; whoever comes first gets an item.
-/
namespace RubyRuntime

/-- The items, oldest first; `waiting` counts the consumers that wait for an item, those included
that have been notified and not come back yet. -/
structure UnboundedQueue (α : Type) where
  items : List α := []
  closed : Bool := false
  waiting : Nat := 0
  consumers : WaitList := {}

namespace UnboundedQueue

variable {α : Type}

def addAll? (items : List α) (queue : UnboundedQueue α) : Option (UnboundedQueue α) :=
  if queue.closed then none
  else some { queue with
    items := queue.items ++ items
    consumers := queue.consumers.notifyAll }

def add? (item : α) (queue : UnboundedQueue α) : Option (UnboundedQueue α) :=
  if queue.closed then none
  else some { queue with
    items := queue.items ++ [item]
    consumers := queue.consumers.notifyOne }

def offer (item : α) (queue : UnboundedQueue α) : Offer α × UnboundedQueue α :=
  match queue.add? item with
  | some queue => (.success, queue)
  | none => (.closed item, queue)

def poll (queue : UnboundedQueue α) : Option α × UnboundedQueue α :=
  (queue.items.head?, { queue with items := queue.items.tail })

/-- One critical section of a take whose deadline has passed when `late` is set: the oldest item,
the news of the close, nothing at the deadline (`done none`), or a park under the ticket. -/
def take (late : Bool) (ticket : Ticket) (queue : UnboundedQueue α) :
    Attempt (Option (Taken α)) × UnboundedQueue α :=
  match queue.items with
  | item :: rest => (.done (some (.item item)), { queue with items := rest })
  | [] =>
    if queue.closed then (.done (some .closed), queue)
    else if late then (.done none, queue)
    else (.park, { queue with
      waiting := queue.waiting + 1
      consumers := queue.consumers.park ticket })

def unpark (ticket : Ticket) (queue : UnboundedQueue α) : UnboundedQueue α :=
  { queue with waiting := queue.waiting - 1, consumers := queue.consumers.leave ticket }

def clear (queue : UnboundedQueue α) : UnboundedQueue α :=
  { queue with items := [] }

def close (queue : UnboundedQueue α) : UnboundedQueue α :=
  { queue with closed := true, consumers := queue.consumers.notifyAll }

end UnboundedQueue

end RubyRuntime
