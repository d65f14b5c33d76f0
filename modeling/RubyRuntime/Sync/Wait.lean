import RubyRuntime.Sync.Mutex
import RubyRuntime.Thread.Parking

/-!
# Waiting on a condition

A wait releases the lock and registers inside the condition's private critical section, then waits
in slices until it can take a credit, is asked to wake up, or reaches its deadline. Safepoint
actions run outside the critical section. Whatever ends the wait, the thread deregisters before it
takes the lock again. Each phase below is left by one atomic step.
-/
namespace RubyRuntime

structure ConditionWait where
  thread : ThreadId
  condition : ConditionId
  lock : LockId
  deadline : Option Nat

/-- Where a wait has got to. `holds` is what has to be restored in the end. -/
inductive WaitPhase where
  | entering
  | releasing
  | registering (holds : UInt32)
  | checking (holds : UInt32)
  | parked (holds : UInt32) (ticket : Ticket)
  /-- Inside again after a slice. -/
  | awake (holds : UInt32)
  | polling (holds : UInt32)
  /-- Outside, about to enter again after the actions, the last of which may have failed. -/
  | returning (holds : UInt32) (failure : Option Error)
  | leaving (holds : UInt32) (result : Except Error WaitOutcome)
  /-- Outside and deregistered, about to take the lock again. -/
  | relocking (holds : UInt32) (result : Except Error WaitOutcome)

namespace ConditionWait

variable {α : Type}

def enter (me : Nat) (wait : ConditionWait) (here next : WaitPhase) (s : Sync α) :
    WaitPhase × Sync α :=
  if (s.condition wait.condition).holder.isSome then (here, s)
  else (next, s.updateCondition wait.condition (·.enter me))

/-- The next step of `me`, who waits as `wait` says. The phases `polling` and `relocking` are left
by the caller. -/
def step (now me : Nat) (wait : ConditionWait) (phase : WaitPhase) (s : Sync α) :
    WaitPhase × Sync α :=
  let inCondition := fun f => s.updateCondition wait.condition f
  match phase with
  | .entering => wait.enter me .entering .releasing s
  | .releasing =>
    let holds := (s.lock wait.lock).holdCount wait.thread
    let s := s.updateLock wait.lock (·.releaseFully wait.thread)
    (.registering holds, s.updateThread wait.thread (·.removeOwned wait.lock))
  | .registering holds => (.checking holds, inCondition Condition.register)
  | .checking holds =>
    match (s.condition wait.condition).consume? with
    | some condition => (.leaving holds (.ok .signaled), inCondition fun _ => condition)
    | none =>
      if (s.thread wait.thread).wakeUp then
        (.leaving holds (.ok .woken), s.updateThread wait.thread (·.dropWakeUp))
      else if isLate now wait.deadline then (.leaving holds (.ok .timedOut), s)
      else
        let (ticket, s) := s.drawTicket
        (.parked holds ticket, s.updateCondition wait.condition (·.park ticket))
  | .parked holds ticket =>
    if (s.condition wait.condition).holder.isSome then (.parked holds ticket, s)
    else (.awake holds, inCondition fun condition => (condition.unpark ticket).enter me)
  | .awake holds =>
    match (s.condition wait.condition).consume? with
    | some condition => (.leaving holds (.ok .signaled), inCondition fun _ => condition)
    | none =>
      if (s.thread wait.thread).interrupted then
        (.polling holds,
          (inCondition Condition.exit).updateThread wait.thread (·.dropInterrupt))
      else (.checking holds, s)
  | .polling holds => (.polling holds, s)
  | .returning holds failure =>
    wait.enter me (.returning holds failure)
      (match failure with
        | some e => .leaving holds (.error e)
        | none => .checking holds) s
  | .leaving holds result =>
    (.relocking holds result, inCondition fun condition =>
      let condition := match result with
        | .error _ => condition.consume?.getD condition
        | .ok _ => condition
      condition.deregister.exit)
  | .relocking holds result => (.relocking holds result, s)

def isReady (now : Nat) (wakeAt : Option Nat) (wait : ConditionWait) (phase : WaitPhase)
    (s : Sync α) : Bool :=
  let condition := s.condition wait.condition
  match phase with
  | .entering | .returning _ _ => condition.holder.isNone
  | .parked _ ticket =>
    condition.holder.isNone && (!condition.parked.isParked ticket || isLate now wakeAt)
  | _ => true

end ConditionWait

end RubyRuntime
