import RubyRuntime.Thread.Record

/-!
# Signals to a thread

How others reach a thread: they submit an action, ask it to wake up, or just interrupt it. Each of
these is a sequence of atomic accesses to its record that ends with a notification under the lock
of its parker. Signals of several senders may interleave step by step; `deliver` is a signal that
nobody interferes with.
-/
namespace RubyRuntime

inductive Signal (α : Type) where
  | submitting (action : α)
  | marking
  | waking
  | interrupting
  | entering
  | notifying
  | leaving
  | delivered

namespace Signal

variable {α : Type}

def step (signal : Signal α) (thread : ThreadRecord α) : Signal α × ThreadRecord α :=
  match signal with
  | submitting action => (marking, thread.pushAction action)
  | marking => (interrupting, thread.markPending)
  | waking => (interrupting, thread.requestWakeUp)
  | interrupting => (entering, thread.interrupt)
  | entering =>
    if thread.parker.busy then (entering, thread) else (notifying, thread.setBusy true)
  | notifying => (leaving, thread.notify)
  | leaving => (delivered, thread.setBusy false)
  | delivered => (delivered, thread)

def run : Nat → Signal α → ThreadRecord α → ThreadRecord α
  | 0, _, thread => thread
  | fuel + 1, signal, thread =>
    let (signal, thread) := signal.step thread
    run fuel signal thread

/-- Sends a signal without interference; no signal takes more than six steps. -/
def deliver (signal : Signal α) (thread : ThreadRecord α) : ThreadRecord α :=
  run 6 signal thread

end Signal

end RubyRuntime
