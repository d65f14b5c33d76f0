import RubyRuntime.Value

/-!
# Allocation tracing

While tracing is on, the place where an object was allocated can be recorded under its address.
Starts and stops nest. Clearing drops all records and opens a new generation.
-/
namespace RubyRuntime

structure AllocationRecord where
  className : Option String
  method : Option String
  file : Option String
  line : Nat
  generation : Nat
  deriving DecidableEq, Repr

structure AllocationTable where
  depth : Nat := 0
  generation : Nat := 0
  records : List (Nat × ObjectRef × AllocationRecord) := []

namespace AllocationTable

def isTracing (table : AllocationTable) : Bool :=
  table.depth > 0

def start (table : AllocationTable) : AllocationTable :=
  { table with depth := table.depth + 1 }

def stop (table : AllocationTable) : AllocationTable :=
  { table with depth := table.depth - 1 }

def clear (table : AllocationTable) : AllocationTable :=
  { table with records := [], generation := table.generation + 1 }

def trace (o : ObjectRef) (className method file : Option String) (line : Nat)
    (table : AllocationTable) : AllocationTable :=
  if table.isTracing then
    { table with
      records := (o.address, o, ⟨className, method, file, line, table.generation⟩) ::
        table.records.filter fun entry => entry.1 ≠ o.address }
  else table

/-- The record of a live object; a record of another object at the same address does not count. -/
def info? (alive : ObjectRef → Bool) (o : ObjectRef) (table : AllocationTable) :
    Option AllocationRecord :=
  (table.records.lookup o.address).bind fun (recorded, record) =>
    if alive recorded && recorded.serial == o.serial then some record else none

def sweep (alive : ObjectRef → Bool) (table : AllocationTable) : AllocationTable :=
  { table with records := table.records.filter fun entry => alive entry.2.1 }

end AllocationTable

end RubyRuntime
