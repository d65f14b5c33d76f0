import RubyRuntime.Session.World

/-!
# Snapshots

What is shown of an entity after each step. Looking at a weak map sweeps it.
-/
namespace RubyRuntime.Session.World

def threadSnapshot (w : World) (t : ThreadId) : Report :=
  let thread := w.thread t
  .list [.text thread.status.display, .nat thread.ownedLocks.length, .bool thread.pending,
    .nat thread.stack.depth]

/-- The name of the owner, if it still has one, and its holds. -/
def lockSnapshot (w : World) (l : LockId) : Report :=
  let lock := w.sync.lock l
  match lock.owner with
  | some t => .list [.textOrNull (w.threadLabel? t), .nat lock.holds.toNat]
  | none => .list [.null, .nat 0]

def conditionSnapshot (w : World) (c : ConditionId) : Report :=
  let condition := w.sync.condition c
  .list [.nat condition.waiters, .nat condition.signals]

def queueSnapshot (w : World) (q : Nat) : Report :=
  let queue := w.queue q
  .list [.list (queue.items.map w.report), .nat queue.items.length, .bool queue.items.isEmpty,
    .bool queue.closed, .nat queue.waiting]

def boundedSnapshot (w : World) (q : Nat) : Report :=
  let queue := w.boundedQueue q
  .list [.list (queue.contents.map w.report), .nat queue.size, .bool (queue.size == 0),
    .bool queue.closed, .nat queue.waiting, .nat queue.capacity]

def weakPairs (w : World) (held : List ObjectRef) (i : Nat) : List (Value × Value) × World :=
  let alive := w.isAlive held
  ((w.weakMap i).pairs alive, w.setWeakMap i ((w.weakMap i).sweep alive))

def weakKeySize (w : World) (held : List ObjectRef) (i : Nat) : Nat × World :=
  let outside := w.isHeldOutside i held
  ((w.weakKeyMap i).size outside, w.setWeakKeyMap i ((w.weakKeyMap i).sweep outside))

def reportPair (w : World) (pair : Value × Value) : Report :=
  .list [w.report pair.1, w.report pair.2]

def mention (watched : Watched) (w : World) : World :=
  match watched with
  | .thread name => (w.threadNamed name).2
  | .mutex name => (w.lockNamed name).2
  | .condition name => (w.conditionNamed name).2
  | .queue name => (w.queueNamed name).2
  | .weakMap name => (w.weakMapNamed name).2
  | .weakKeyMap name => (w.weakKeyMapNamed name).2
  | .bounded _ | .space => w

def snapshot (held : List ObjectRef) (watched : Watched) (w : World) : Report × World :=
  match watched with
  | .thread name => let (t, w) := w.threadNamed name; (w.threadSnapshot t, w)
  | .mutex name => let (l, w) := w.lockNamed name; (w.lockSnapshot l, w)
  | .condition name => let (c, w) := w.conditionNamed name; (w.conditionSnapshot c, w)
  | .queue name => let (q, w) := w.queueNamed name; (w.queueSnapshot q, w)
  | .bounded name =>
    match w.boundedNamed? name with
    | some q => (w.boundedSnapshot q, w)
    | none => (.null, w)
  | .weakMap name =>
    let (i, w) := w.weakMapNamed name
    let (pairs, w) := w.weakPairs held i
    (Report.sorted (pairs.map w.reportPair), w)
  | .weakKeyMap name =>
    let (i, w) := w.weakKeyMapNamed name
    let (size, w) := w.weakKeySize held i
    (.nat size, w)
  | .space =>
    let space := w.space 0
    (.list [.bool space.allocations.isTracing, .nat space.allocations.generation,
      .nat space.finalizers.size], w)

def snapshots (held : List ObjectRef) (watched : List Watched) (w : World) :
    List Report × World :=
  match watched with
  | [] => ([], w)
  | first :: rest =>
    let (shown, w) := w.snapshot held first
    let (others, w) := w.snapshots held rest
    (shown :: others, w)

end RubyRuntime.Session.World
