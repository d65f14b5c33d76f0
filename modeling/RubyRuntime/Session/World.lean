import RubyRuntime.ObjectSpace.Basic
import RubyRuntime.Queue.Bounded
import RubyRuntime.Queue.Unbounded
import RubyRuntime.Session.Syntax
import RubyRuntime.Sync.Mutex
import RubyRuntime.Weak.KeyMap

/-!
# The world of a session

Everything that steps can see: the threads, locks and conditions, the queues, the heap, the object
spaces, the weak maps, the backtraces, and the names by which steps reach them. An object lives as
long as a name, a queue, the value of a weak key map or a running step holds it.
-/
namespace RubyRuntime.Session

/-- The names of entities. The latest entity of a name hides earlier ones. -/
structure Names where
  threads : List (String × ThreadId) := []
  locks : List (String × LockId) := []
  conditions : List (String × ConditionId) := []
  queues : List (String × Nat) := []
  bounded : List (String × Nat) := []
  weakMaps : List (String × Nat) := []
  weakKeyMaps : List (String × Nat) := []
  spaces : List (String × Nat) := []
  objects : List (String × ObjectRef) := []

/-- The state of a session. Times are in milliseconds. -/
structure World where
  options : Options
  clock : Nat := 0
  sync : Sync Action := {}
  queues : List (UnboundedQueue Value) := []
  bounded : List (BoundedQueue Value) := []
  heap : Heap := {}
  spaces : List (ObjectSpace Finalizer) := [{}]
  weakMaps : List WeakMap := []
  weakKeyMaps : List WeakKeyMap := []
  backtraces : List (String × Backtrace) := []
  names : Names := {}

def setNamed {α : Type} (name : String) (a : α) (entries : List (String × α)) :
    List (String × α) :=
  (name, a) :: entries.filter fun entry => entry.1 ≠ name

/-- The name that an entity goes by now. One whose name was given to another has none. -/
def labelOf? (entity : Nat) (entries : List (String × Nat)) : Option String :=
  (entries.find? fun entry => entry.2 == entity).map (·.1)

inductive Failure where
  | error (e : Error)
  /-- The thread was interrupted outside a call that would have polled. -/
  | interrupted
  | lock (e : LockError) (message : String)
  | panic (text : String)

structure Reply where
  world : World
  result : Except Failure Report := .ok .null
  events : List Report := []

structure Scope where
  me : Nat
  current : Option ThreadId
  held : List ObjectRef

namespace World

/-- The thread of a name, created at its first mention. -/
def threadNamed (name : String) (w : World) : ThreadId × World :=
  match w.names.threads.lookup name with
  | some t => (t, w)
  | none =>
    let (t, sync) := w.sync.createThread (some name)
    (t, { w with sync, names := { w.names with threads := setNamed name t w.names.threads } })

def newThread (name : String) (threadName : Option String) (w : World) : ThreadId × World :=
  let (t, sync) := w.sync.createThread threadName
  (t, { w with sync, names := { w.names with threads := setNamed name t w.names.threads } })

def lockNamed (name : String) (w : World) : LockId × World :=
  match w.names.locks.lookup name with
  | some l => (l, w)
  | none =>
    let (l, sync) := w.sync.createLock
    (l, { w with sync, names := { w.names with locks := setNamed name l w.names.locks } })

def conditionNamed (name : String) (w : World) : ConditionId × World :=
  match w.names.conditions.lookup name with
  | some c => (c, w)
  | none =>
    let (c, sync) := w.sync.createCondition
    (c, { w with sync, names := { w.names with conditions := setNamed name c w.names.conditions } })

def threadAndLock (w : World) (t m : String) : ThreadId × LockId × World :=
  let (t, w) := w.threadNamed t
  let (l, w) := w.lockNamed m
  (t, l, w)

def queueNamed (name : String) (w : World) : Nat × World :=
  match w.names.queues.lookup name with
  | some q => (q, w)
  | none =>
    let q := w.queues.length
    (q, { w with
      queues := w.queues ++ [{}]
      names := { w.names with queues := setNamed name q w.names.queues } })

def boundedNamed? (name : String) (w : World) : Option Nat :=
  w.names.bounded.lookup name

def weakMapNamed (name : String) (w : World) : Nat × World :=
  match w.names.weakMaps.lookup name with
  | some i => (i, w)
  | none =>
    let i := w.weakMaps.length
    (i, { w with
      weakMaps := w.weakMaps ++ [{}]
      names := { w.names with weakMaps := setNamed name i w.names.weakMaps } })

def weakKeyMapNamed (name : String) (w : World) : Nat × World :=
  match w.names.weakKeyMaps.lookup name with
  | some i => (i, w)
  | none =>
    let i := w.weakKeyMaps.length
    (i, { w with
      weakKeyMaps := w.weakKeyMaps ++ [{}]
      names := { w.names with weakKeyMaps := setNamed name i w.names.weakKeyMaps } })

def spaceNamed (name : Option String) (w : World) : Nat :=
  (name.bind fun name => w.names.spaces.lookup name).getD 0

def queue (w : World) (q : Nat) : UnboundedQueue Value :=
  w.queues[q]?.getD {}

def setQueue (q : Nat) (queue : UnboundedQueue Value) (w : World) : World :=
  { w with queues := changeEntry {} (fun _ => queue) q w.queues }

/-- What stands for a bounded queue that was not made yet: one that takes nothing. -/
def unmadeBounded : BoundedQueue Value :=
  { ring := .empty 1, capacity := 0 }

def boundedQueue (w : World) (q : Nat) : BoundedQueue Value :=
  w.bounded[q]?.getD unmadeBounded

def setBounded (q : Nat) (queue : BoundedQueue Value) (w : World) : World :=
  { w with bounded := changeEntry unmadeBounded (fun _ => queue) q w.bounded }

def weakMap (w : World) (i : Nat) : WeakMap :=
  w.weakMaps[i]?.getD {}

def setWeakMap (i : Nat) (map : WeakMap) (w : World) : World :=
  { w with weakMaps := w.weakMaps.set i map }

def weakKeyMap (w : World) (i : Nat) : WeakKeyMap :=
  w.weakKeyMaps[i]?.getD {}

def setWeakKeyMap (i : Nat) (map : WeakKeyMap) (w : World) : World :=
  { w with weakKeyMaps := w.weakKeyMaps.set i map }

def space (w : World) (i : Nat) : ObjectSpace Finalizer :=
  w.spaces[i]?.getD {}

def setSpace (i : Nat) (space : ObjectSpace Finalizer) (w : World) : World :=
  { w with spaces := w.spaces.set i space }

def thread (w : World) (t : ThreadId) : ThreadRecord Action :=
  w.sync.thread t

def drawTicket (w : World) : Ticket × World :=
  let (ticket, sync) := w.sync.drawTicket
  (ticket, { w with sync })

def threadLabel? (w : World) (t : ThreadId) : Option String :=
  labelOf? t w.names.threads

def lockErrorText (w : World) (t : ThreadId) (l : LockId) (e : LockError) : String :=
  e.message ((labelOf? l w.names.locks).getD "?") ((w.threadLabel? t).getD "?")

def updateSync (f : Sync Action → Sync Action) (w : World) : World :=
  { w with sync := f w.sync }

def updateThread (t : ThreadId) (f : ThreadRecord Action → ThreadRecord Action) (w : World) :
    World :=
  w.updateSync (·.updateThread t f)

def mapHolds (o : ObjectRef) (map : WeakKeyMap) : Bool :=
  map.entries.any fun entry => entry.2.value.refersTo o

/-- Whether a name, a queue that still has its name, or one of the given references holds the
object. -/
def holdsDirectly (w : World) (held : List ObjectRef) (o : ObjectRef) : Bool :=
  held.any (·.serial == o.serial) || w.names.objects.any (·.2.serial == o.serial) ||
    w.queues.any (·.items.any (·.refersTo o)) ||
    w.names.bounded.any fun entry => (w.boundedQueue entry.2).contents.any (·.refersTo o)

def isAlive (w : World) (held : List ObjectRef) (o : ObjectRef) : Bool :=
  w.holdsDirectly held o || w.weakKeyMaps.any (mapHolds o)

/-- Whether anything but the values of weak key map `i` holds the object. -/
def isHeldOutside (w : World) (i : Nat) (held : List ObjectRef) (o : ObjectRef) : Bool :=
  w.holdsDirectly held o || (w.weakKeyMaps.eraseIdx i).any (mapHolds o)

def evaluate (spec : ValueSpec) (w : World) : Value × World :=
  match spec with
  | .immediate v => (v.value, w)
  | .named name => (((w.names.objects.lookup name).map Value.object).getD .nil, w)
  | .fresh className payload =>
    let (o, heap) := w.heap.allocate className payload
    (.object o, { w with heap })

def evaluateAll (specs : List ValueSpec) (w : World) : List Value × World :=
  match specs with
  | [] => ([], w)
  | spec :: rest =>
    let (v, w) := w.evaluate spec
    let (vs, w) := w.evaluateAll rest
    (v :: vs, w)

def nameOf? (w : World) (o : ObjectRef) : Option String :=
  let names := (w.names.objects.filter (·.2.serial == o.serial)).map (·.1)
  names.foldl (fun least name => match least with
    | none => some name
    | some least => some (if name < least then name else least)) none

def report (w : World) : Value → Report
  | .nil => .null
  | .bool b => .bool b
  | .integer n =>
    if n.toInt.natAbs ≤ Nat.pow 2 53 then .int n.toInt
    else .record [("int", .text (toString n.toInt))]
  | .float bits => .record [("float", .text (Text.paddedHex 16 bits.toNat))]
  | .symbol name => .record [("sym", .text name)]
  | .object o =>
    match w.nameOf? o with
    | some name => .record [("obj", .text name)]
    | none =>
      match o.payload with
      | some payload =>
        if o.className = "String" then .text payload
        else .record [("new", .text o.className), ("payload", .text payload)]
      | none => .record [("new", .text o.className)]

def reportItem (w : World) : Option Value → Report
  | some v => .record [("item", w.report v)]
  | none => .text "absent"

end World

def objectsOf (values : List Value) : List ObjectRef :=
  values.filterMap Value.asObject?

def World.reply (w : World) (report : Report) : Reply :=
  { world := w, result := .ok report }

def World.fail (w : World) (e : Error) : Reply :=
  { world := w, result := .error (.error e) }

def World.panics (w : World) (text : String) : Reply :=
  { world := w, result := .error (.panic text) }

end RubyRuntime.Session
