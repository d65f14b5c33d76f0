import RubyRuntime.Error
import RubyRuntime.ObjectId
import RubyRuntime.ObjectSpace.Heap

/-!
# Assigned ids

A counter hands out ids in fixed strides until the 64-bit word is used up. The registry remembers
what each id was given to: symbols for ever, objects without keeping them alive.
-/
namespace RubyRuntime

inductive IdTarget where
  | object (o : ObjectRef)
  | symbol (name : String)
  deriving DecidableEq

structure IdTable where
  counter : Nat := ObjectId.counterStart
  symbols : List (String × Nat) := []
  registry : List (Nat × IdTarget) := []

namespace IdTable

def next? (table : IdTable) : Option (Nat × IdTable) :=
  let id := table.counter + ObjectId.counterStride
  if id < ObjectId.wordBound then some (id, { table with counter := id }) else none

def register (id : Nat) (target : IdTarget) (table : IdTable) : IdTable :=
  { table with
    registry := (id, target) :: table.registry.filter fun entry => entry.1 ≠ id }

def symbolId? (name : String) (table : IdTable) : Option (Nat × IdTable) :=
  match table.symbols.lookup name with
  | some id => some (id, table)
  | none => do
    let (id, table) ← table.next?
    let table := table.register id (.symbol name)
    pure (id, { table with symbols := (name, id) :: table.symbols })

def toValue (alive : ObjectRef → Bool) (raw : Int) (table : IdTable) : Except Error Value :=
  let notAnId := .error (Cause.notAnId (ObjectId.hex raw)).error
  match ObjectId.decode raw with
  | none => notAnId
  | some .nil => .ok .nil
  | some (.boolean b) => .ok (.bool b)
  | some (.fixnum n) => .ok (.integer n)
  | some (.float bits) => .ok (.float bits)
  | some (.counter id) =>
    match table.registry.lookup id with
    | some (.symbol name) => .ok (.symbol name)
    | some (.object o) =>
      if alive o then .ok (.object o) else .error (Cause.recycledId (ObjectId.hex raw)).error
    | none => notAnId

def sweep (alive : ObjectRef → Bool) (table : IdTable) : IdTable :=
  { table with
    registry := table.registry.filter fun entry =>
      match entry.2 with
      | .object o => alive o
      | .symbol _ => true }

end IdTable

/-- Where a request for the id of an object has got to. Each step is one atomic access to the object
or the table. -/
inductive IdRequest where
  | reading
  | locking
  | rereading
  | drawing (locked : Bool)
  | writing (locked : Bool) (id : Nat)
  | registering (locked : Bool) (id : Nat)
  | unlocking (id : Option Nat)
  | finished (id : Option Nat)
  deriving DecidableEq

namespace IdRequest

/-- One step of a request by `me` for the id of `o`. A request waits while another holds the lock.
-/
def step (me : Nat) (o : ObjectRef) (request : IdRequest) (heap : Heap) (table : IdTable) :
    IdRequest × Heap × IdTable :=
  match request with
  | reading =>
    if heap.readId o ≠ 0 then (finished (some (heap.readId o)), heap, table)
    else if heap.isShared o then (locking, heap, table)
    else (drawing false, heap, table)
  | locking =>
    if (heap.state o).lockedBy.isSome then (locking, heap, table)
    else (rereading, heap.setIdLock o (some me), table)
  | rereading =>
    if heap.readId o ≠ 0 then (unlocking (some (heap.readId o)), heap, table)
    else (drawing true, heap, table)
  | drawing locked =>
    match table.next? with
    | some (id, table) => (writing locked id, heap, table)
    | none => (if locked then unlocking none else finished none, heap, table)
  | writing locked id => (registering locked id, heap.writeId o id, table)
  | registering locked id =>
    (if locked then unlocking (some id) else finished (some id), heap,
      table.register id (.object o))
  | unlocking id => (finished id, heap.setIdLock o none, table)
  | finished id => (finished id, heap, table)

/-- Steps on until the request is finished; seven steps are enough when nobody interferes. -/
def run (me : Nat) (o : ObjectRef) : Nat → IdRequest → Heap → IdTable → Option Nat × Heap × IdTable
  | _, finished id, heap, table => (id, heap, table)
  | 0, _, heap, table => (none, heap, table)
  | fuel + 1, request, heap, table =>
    let (request, heap, table) := request.step me o heap table
    run me o fuel request heap table

end IdRequest

def objectId? (me : Nat) (o : ObjectRef) (heap : Heap) (table : IdTable) :
    Option Nat × Heap × IdTable :=
  IdRequest.run me o 8 .reading heap table

end RubyRuntime
