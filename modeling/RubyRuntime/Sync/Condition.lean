import RubyRuntime.Thread.Record
import RubyRuntime.Thread.WaitList

/-!
# Condition variables

A condition counts the threads registered in a wait and the wake-up credits granted to them. A wait
ends as signalled only by taking a credit. A signal also notifies the thread that has been parked
longest, a broadcast all parked threads. `holder` is whoever is inside the condition's private
critical section, in which both counts change.
-/
namespace RubyRuntime

abbrev ConditionId := Nat

structure Condition where
  waiters : Nat := 0
  signals : Nat := 0
  holder : Option Nat := none
  parked : WaitList := {}
  deriving DecidableEq, Repr

inductive WaitOutcome where
  | signaled
  | timedOut
  | woken
  deriving DecidableEq, Repr

def WaitOutcome.display : WaitOutcome → String
  | signaled => "Signaled"
  | timedOut => "TimedOut"
  | woken => "Woken"

namespace Condition

/-- Enters the private critical section; only possible while nobody is inside. -/
def enter (me : Nat) (condition : Condition) : Condition :=
  { condition with holder := some me }

def exit (condition : Condition) : Condition :=
  { condition with holder := none }

def register (condition : Condition) : Condition :=
  { condition with waiters := condition.waiters + 1 }

def deregister (condition : Condition) : Condition :=
  { condition with waiters := condition.waiters - 1 }

def consume? (condition : Condition) : Option Condition :=
  if condition.signals > 0 then some { condition with signals := condition.signals - 1 } else none

def park (ticket : Ticket) (condition : Condition) : Condition :=
  { condition with parked := condition.parked.park ticket }.exit

def unpark (ticket : Ticket) (condition : Condition) : Condition :=
  { condition with parked := condition.parked.leave ticket }

/-- Grants one credit, unless nobody waits. -/
def signal (condition : Condition) : Condition :=
  if condition.waiters > 0 then
    { condition with
      signals := condition.signals + 1
      parked := condition.parked.notifyOne }
  else condition

def broadcast (condition : Condition) : Condition :=
  if condition.waiters > 0 then
    { condition with
      signals := condition.signals + condition.waiters
      parked := condition.parked.notifyAll }
  else condition

end Condition

end RubyRuntime
