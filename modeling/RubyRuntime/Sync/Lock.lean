import RubyRuntime.Thread.Record
import RubyRuntime.Thread.WaitList

/-!
# Reentrant locks

A lock is free or owned by one thread with a number of holds, a 32-bit word. The owner may add
holds as long as they can be counted; the lock becomes free when the last one is dropped, which is
announced to the thread that has been parked for it longest.
-/
namespace RubyRuntime

/-- A lock; `waiting` counts the threads that wait for it, those included that have been notified
and not come back yet. -/
structure Lock where
  owner : Option ThreadId := none
  holds : UInt32 := 0
  waiting : Nat := 0
  parked : WaitList := {}

inductive LockError where
  | notLocked
  | notOwner
  deriving DecidableEq, Repr

def LockError.message (lock thread : String) : LockError → String
  | notLocked => "lock MutexId(" ++ lock ++ ") is not locked"
  | notOwner =>
    "lock MutexId(" ++ lock ++ ") is not held by thread ThreadId(" ++ thread ++ ")"

inductive Acquisition (α : Type) where
  | acquired (result : α)
  | busy
  | exhausted
  deriving DecidableEq, Repr

namespace Acquisition

variable {α β : Type}

def map (f : α → β) : Acquisition α → Acquisition β
  | acquired result => acquired (f result)
  | busy => busy
  | exhausted => exhausted

end Acquisition

namespace Lock

def maxHolds : UInt32 := 4294967295

def isLocked (lock : Lock) : Bool :=
  lock.owner.isSome

def isHeldBy (t : ThreadId) (lock : Lock) : Bool :=
  lock.owner == some t

def holdCount (t : ThreadId) (lock : Lock) : UInt32 :=
  if lock.isHeldBy t then lock.holds else 0

def acquire (t : ThreadId) (lock : Lock) : Acquisition Lock :=
  match lock.owner with
  | none => .acquired { lock with owner := some t, holds := 1 }
  | some owner =>
    if owner ≠ t then .busy
    else if lock.holds = maxHolds then .exhausted
    else .acquired { lock with holds := lock.holds + 1 }

def unlock (t : ThreadId) (lock : Lock) : Except LockError Lock :=
  match lock.owner with
  | none => .error .notLocked
  | some owner =>
    if owner = t then
      let left := lock.holds - 1
      .ok (if left = 0 then
        { lock with holds := 0, owner := none, parked := lock.parked.notifyOne }
      else { lock with holds := left })
    else .error .notOwner

/-- Drops every hold of `t`; another thread's lock stays. How many there were is `holdCount`. -/
def releaseFully (t : ThreadId) (lock : Lock) : Lock :=
  if lock.isHeldBy t then
    { lock with owner := none, holds := 0, parked := lock.parked.notifyOne }
  else lock

/-- Sets the number of holds of the owner; zero is ignored, and so is any thread but the owner. -/
def setHoldCount (t : ThreadId) (count : UInt32) (lock : Lock) : Lock :=
  if lock.isHeldBy t ∧ 0 < count then { lock with holds := count } else lock

def park (ticket : Ticket) (lock : Lock) : Lock :=
  { lock with waiting := lock.waiting + 1, parked := lock.parked.park ticket }

def unpark (ticket : Ticket) (lock : Lock) : Lock :=
  { lock with waiting := lock.waiting - 1, parked := lock.parked.leave ticket }

end Lock

end RubyRuntime
