/-!
# Wait lists

The parks on a condition of the host, in the order in which they began. A notification ends the
oldest park or all of them; a park also ends when its time is over. A thread that is to wait on
parks anew, behind all others.
-/
namespace RubyRuntime

/-- Names one park. Tickets are never used twice and grow with time. -/
abbrev Ticket := Nat

structure WaitList where
  tickets : List Ticket := []
  deriving DecidableEq, Repr

namespace WaitList

def park (ticket : Ticket) (list : WaitList) : WaitList :=
  ⟨list.tickets ++ [ticket]⟩

def notifyOne (list : WaitList) : WaitList :=
  ⟨list.tickets.tail⟩

def notifyAll (_ : WaitList) : WaitList :=
  {}

def leave (ticket : Ticket) (list : WaitList) : WaitList :=
  ⟨list.tickets.filter (· ≠ ticket)⟩

def isParked (ticket : Ticket) (list : WaitList) : Bool :=
  list.tickets.contains ticket

end WaitList

end RubyRuntime
