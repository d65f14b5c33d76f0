import RubyRuntime.Thread.Record

/-!
# Parking a thread

How a thread sleeps: under the lock of its parker it looks for a wake-up, for an interrupt and at
its deadline, and parks, which gives the lock back, if it finds none of them. A parked thread takes
the lock and looks again when it is notified or its deadline comes. Each phase is left by one atomic
step.
-/
namespace RubyRuntime

def isLate (now : Nat) (deadline : Option Nat) : Bool :=
  match deadline with
  | some deadline => deadline ≤ now
  | none => false

inductive Parking where
  | entering
  | checkingWakeUp
  | checkingInterrupt
  | checkingDeadline
  /-- Outside, parked since so many notifications had been sent. -/
  | parked (seen : Nat)
  | leaving (interrupted : Bool)
  | finished (interrupted : Bool)
  deriving DecidableEq, Repr

namespace Parking

variable {α : Type}

def isRoused (now : Nat) (deadline : Option Nat) (seen : Nat) (thread : ThreadRecord α) : Bool :=
  thread.parker.notices != seen || isLate now deadline

/-- The next step of the thread, which waits while somebody else is inside the lock. -/
def step (now : Nat) (deadline : Option Nat) (parking : Parking) (thread : ThreadRecord α) :
    Parking × ThreadRecord α :=
  match parking with
  | entering =>
    if thread.parker.busy then (entering, thread) else (checkingWakeUp, thread.setBusy true)
  | checkingWakeUp =>
    if thread.wakeUp then (leaving false, thread.dropWakeUp) else (checkingInterrupt, thread)
  | checkingInterrupt =>
    if thread.interrupted then (leaving true, thread.dropInterrupt)
    else (checkingDeadline, thread)
  | checkingDeadline =>
    if isLate now deadline then (leaving false, thread)
    else (parked thread.parker.notices, thread.setBusy false)
  | parked seen =>
    if isRoused now deadline seen thread && !thread.parker.busy then
      (checkingWakeUp, thread.setBusy true)
    else (parked seen, thread)
  | leaving interrupted => (finished interrupted, thread.setBusy false)
  | finished interrupted => (finished interrupted, thread)

def run (now : Nat) (deadline : Option Nat) :
    Nat → Parking → ThreadRecord α → Parking × ThreadRecord α
  | 0, parking, thread => (parking, thread)
  | fuel + 1, parking, thread =>
    match parking.step now deadline thread with
    | (parked seen, thread) => (parked seen, thread)
    | (finished interrupted, thread) => (finished interrupted, thread)
    | (parking, thread) => run now deadline fuel parking thread

/-- Runs without interference; the thread is parked or done after at most five steps. -/
def settle (now : Nat) (deadline : Option Nat) (parking : Parking) (thread : ThreadRecord α) :
    Parking × ThreadRecord α :=
  parking.run now deadline 5 thread

end Parking

end RubyRuntime
