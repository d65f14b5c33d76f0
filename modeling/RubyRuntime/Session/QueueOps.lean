import RubyRuntime.Session.Snapshot

/-!
# Queue steps that do not wait
-/
namespace RubyRuntime.Session

def World.reportOffer (w : World) : Offer Value → Report
  | .success => .text "Success"
  | .full v => .record [("Full", w.report v)]
  | .closed v => .record [("Closed", w.report v)]

def World.withBounded (w : World) (s : String) (f : Nat → Reply) : Reply :=
  match w.boundedNamed? s with
  | some q => f q
  | none => w.panics ("no bounded queue " ++ s)

/-- The size of a slot for a value. -/
def slotBytes : Nat := 24

def World.failCapacity (w : World) : BoundedQueue.CapacityFailure → Reply
  | .refused e => w.fail e
  | .overflow => w.panics Ring.overflowText

def QueueOp.perform (w : World) : QueueOp → Reply
  | .add q v =>
    let (q, w) := w.queueNamed q
    let (v, w) := w.evaluate v
    match (w.queue q).add? v with
    | some queue => (w.setQueue q queue).reply (.bool true)
    | none => w.reply (.bool false)
  | .addAll q vs =>
    let (q, w) := w.queueNamed q
    let (vs, w) := w.evaluateAll vs
    match (w.queue q).addAll? vs with
    | some queue => (w.setQueue q queue).reply (.bool true)
    | none => w.reply (.bool false)
  | .offer q v =>
    let (q, w) := w.queueNamed q
    let (v, w) := w.evaluate v
    let (outcome, queue) := (w.queue q).offer v
    (w.setQueue q queue).reply (w.reportOffer outcome)
  | .poll q =>
    let (q, w) := w.queueNamed q
    let (item, queue) := (w.queue q).poll
    (w.setQueue q queue).reply (w.reportItem item)
  | .push q v =>
    let (q, w) := w.queueNamed q
    let (v, w) := w.evaluate v
    match (w.queue q).add? v with
    | some queue => (w.setQueue q queue).reply .null
    | none => w.fail Cause.queueClosed.error
  | .popNow t q =>
    let (_, w) := w.threadNamed t
    let (q, w) := w.queueNamed q
    match (w.queue q).poll with
    | (some v, queue) => (w.setQueue q queue).reply (w.reportItem (some v))
    | (none, _) => w.fail Cause.queueEmpty.error
  | .clear q =>
    let (q, w) := w.queueNamed q
    (w.setQueue q (w.queue q).clear).reply .null
  | .close q =>
    let (q, w) := w.queueNamed q
    (w.setQueue q (w.queue q).close).reply .null
  | .info q =>
    let (q, w) := w.queueNamed q
    w.reply (w.queueSnapshot q)
  | .boundedNew s capacity =>
    match BoundedQueue.new? slotBytes capacity with
    | .ok queue =>
      let q := w.bounded.length
      { w with
        bounded := w.bounded ++ [queue]
        names := { w.names with bounded := setNamed s q w.names.bounded } }.reply .null
    | .error failure => w.failCapacity failure
  | .boundedCapacity s capacity => w.withBounded s fun q =>
    match (w.boundedQueue q).changeCapacity? slotBytes capacity with
    | .ok queue => (w.setBounded q queue).reply .null
    | .error failure => w.failCapacity failure
  | .boundedOffer s v => w.withBounded s fun q =>
    let (v, w) := w.evaluate v
    let (outcome, queue) := (w.boundedQueue q).offer v
    (w.setBounded q queue).reply (w.reportOffer outcome)
  | .boundedPoll s => w.withBounded s fun q =>
    let (item, queue) := (w.boundedQueue q).poll
    (w.setBounded q queue).reply (w.reportItem item)
  | .boundedPushNow t s v => w.withBounded s fun q =>
    let (_, w) := w.threadNamed t
    let (v, w) := w.evaluate v
    match (w.boundedQueue q).offer v with
    | (.success, queue) => (w.setBounded q queue).reply .null
    | (.full _, _) => w.fail Cause.queueFull.error
    | (.closed _, _) => w.fail Cause.queueClosed.error
  | .boundedPopNow t s => w.withBounded s fun q =>
    let (_, w) := w.threadNamed t
    match (w.boundedQueue q).poll with
    | (some v, queue) => (w.setBounded q queue).reply (w.reportItem (some v))
    | (none, _) => w.fail Cause.queueEmpty.error
  | .boundedClear s => w.withBounded s fun q =>
    (w.setBounded q (w.boundedQueue q).clear).reply .null
  | .boundedClose s => w.withBounded s fun q =>
    (w.setBounded q (w.boundedQueue q).close).reply .null
  | .boundedInfo s => w.withBounded s fun q => w.reply (w.boundedSnapshot q)

end RubyRuntime.Session
