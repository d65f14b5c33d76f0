import RubyRuntime.Session.World
import RubyRuntime.Sync.Wait

/-!
# Blocking primitives

The primitives that a thread can be parked in. Each is a critical section that gives a result,
reports an interruption, or parks; when the park ends, the section is entered again. None of them
runs safepoint actions: that is done by the call around them.
-/
namespace RubyRuntime.Session

inductive Wait where
  | park (t : ThreadId) (deadline : Option Nat) (parking : Parking)
  | acquire (t : ThreadId) (l : LockId)
  | take (t : ThreadId) (q : Nat) (deadline : Option Nat)
  | boundedTake (t : ThreadId) (q : Nat) (deadline : Option Nat)
  | put (t : ThreadId) (q : Nat) (item : Value)
  /-- Follows a script; past its end it succeeds. -/
  | scripted (t : ThreadId) (cues : List Cue) (plain : Bool)

inductive Yield where
  | unit
  | flag (b : Bool)
  | taken (item : Option (Taken Value))
  | elapsed (millis : Nat)
  | waited (outcome : WaitOutcome)
  | report (r : Report)

inductive Progress where
  | done (result : Yield)
  | interrupted (wait : Wait)
  | parked (wait : Wait) (ticket : Ticket) (wakeAt : Option Nat)
  | panics (text : String)

namespace Wait

def thread : Wait → ThreadId
  | park t _ _ | acquire t _ | take t _ _ | boundedTake t _ _ | put t _ _ | scripted t _ _ => t

/-- The objects that the waiting call holds: the item that it has to put, and what is in its queue,
which may have lost its name. -/
def objects (w : World) : Wait → List ObjectRef
  | put _ q item => objectsOf (item :: (w.boundedQueue q).contents)
  | boundedTake _ q _ => objectsOf (w.boundedQueue q).contents
  | _ => []

def unlessInterrupted (wait : Wait) (w : World) (next : World × Progress) :
    World × Progress :=
  if (w.thread wait.thread).interrupted then
    (w.updateThread wait.thread (·.dropInterrupt), .interrupted wait)
  else next

/-- The end of the slice that starts now, or the deadline if it comes first. -/
def sliceEnd (w : World) (deadline : Option Nat) : Nat :=
  let slice := w.clock + w.options.pollInterval
  match deadline with
  | some deadline => min deadline slice
  | none => slice

def attempt (ticket : Ticket) (wait : Wait) (w : World) : World × Progress :=
  match wait with
  | park t deadline parking =>
    match parking.settle w.clock deadline (w.thread t) with
    | (.finished interrupted, thread) =>
      (w.updateThread t fun _ => thread,
        if interrupted then .interrupted (park t deadline .entering) else .done .unit)
    | (parking, thread) =>
      (w.updateThread t fun _ => thread, .parked (park t deadline parking) ticket deadline)
  | acquire t l =>
    match w.sync.acquire t l with
    | .acquired sync => ({ w with sync }, .done .unit)
    | .busy => unlessInterrupted wait w
      (w.updateSync (·.updateLock l (·.park ticket)),
        .parked wait ticket (some (sliceEnd w none)))
    | .exhausted => (w, .panics Sync.holdsExhausted)
  | take _ q deadline =>
    match (w.queue q).take (isLate w.clock deadline) ticket with
    | (.done result, queue) => (w.setQueue q queue, .done (.taken result))
    | (.park, queue) => (w.setQueue q queue, .parked wait ticket (some (sliceEnd w deadline)))
  | boundedTake _ q deadline =>
    match (w.boundedQueue q).take (isLate w.clock deadline) ticket with
    | (.done result, queue) => (w.setBounded q queue, .done (.taken result))
    | (.park, queue) => (w.setBounded q queue, .parked wait ticket (some (sliceEnd w deadline)))
  | put _ q item =>
    match (w.boundedQueue q).put item ticket with
    | (.done accepted, queue) => (w.setBounded q queue, .done (.flag accepted))
    | (.park, queue) => (w.setBounded q queue, .parked wait ticket (some (sliceEnd w none)))
  | scripted t cues plain =>
    let next := scripted t cues.tail plain
    match cues.head?.getD .ok with
    | .interrupted => (w, .interrupted next)
    | .check => unlessInterrupted next w (w, .done .unit)
    | .ok => (w, .done .unit)

def resume (old ticket : Ticket) (wait : Wait) (w : World) : World × Progress :=
  match wait with
  | park _ _ _ | scripted _ _ _ => wait.attempt ticket w
  | acquire _ l => wait.attempt ticket (w.updateSync (·.updateLock l (·.unpark old)))
  | take _ q _ =>
    let w := w.setQueue q ((w.queue q).unpark old)
    unlessInterrupted wait w (wait.attempt ticket w)
  | boundedTake _ q _ =>
    let w := w.setBounded q ((w.boundedQueue q).unparkConsumer old)
    unlessInterrupted wait w (wait.attempt ticket w)
  | put _ q _ =>
    let w := w.setBounded q ((w.boundedQueue q).unparkProducer old)
    unlessInterrupted wait w (wait.attempt ticket w)

def isReady (w : World) (ticket : Ticket) (wakeAt : Option Nat) (wait : Wait) : Bool :=
  isLate w.clock wakeAt ||
    match wait with
    | park t deadline (.parked seen) => Parking.isRoused w.clock deadline seen (w.thread t)
    | park _ _ _ => true
    | acquire _ l => !(w.sync.lock l).parked.isParked ticket
    | take _ q _ => !(w.queue q).consumers.isParked ticket
    | boundedTake _ q _ => !(w.boundedQueue q).consumers.isParked ticket
    | put _ q _ => !(w.boundedQueue q).producers.isParked ticket
    | scripted _ _ _ => true

end Wait

end RubyRuntime.Session
