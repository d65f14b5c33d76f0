import RubyRuntime.Value

/-!
# Heap

What may change about heap objects: the id field, empty until an id is asked for, and whether the
object is shared between threads. Objects are known by their serial numbers.
-/
namespace RubyRuntime

/-- The changeable part of an object. The id field is 0 while no id is assigned; `lockedBy` is
whoever holds the lock under which shared objects get their ids. -/
structure ObjectState where
  id : Nat := 0
  shared : Bool := false
  lockedBy : Option Nat := none
  deriving DecidableEq, Repr

structure Heap where
  nextSerial : Nat := 0
  states : List (Nat × ObjectState) := []

namespace Heap

def state (heap : Heap) (o : ObjectRef) : ObjectState :=
  (heap.states.lookup o.serial).getD {}

def setState (heap : Heap) (o : ObjectRef) (state : ObjectState) : Heap :=
  { heap with
    states := (o.serial, state) :: heap.states.filter fun entry => entry.1 ≠ o.serial }

def allocate (className : String) (payload : Option String) (heap : Heap) : ObjectRef × Heap :=
  (⟨heap.nextSerial, heap.nextSerial, className, payload⟩,
    { heap with nextSerial := heap.nextSerial + 1 })

def readId (o : ObjectRef) (heap : Heap) : Nat :=
  (heap.state o).id

def writeId (o : ObjectRef) (id : Nat) (heap : Heap) : Heap :=
  heap.setState o { heap.state o with id }

def share (o : ObjectRef) (heap : Heap) : Heap :=
  heap.setState o { heap.state o with shared := true }

def isShared (o : ObjectRef) (heap : Heap) : Bool :=
  (heap.state o).shared

def setIdLock (o : ObjectRef) (holder : Option Nat) (heap : Heap) : Heap :=
  heap.setState o { heap.state o with lockedBy := holder }

end Heap

def ObjectRef.debug (id : Nat) (o : ObjectRef) : String :=
  let payload := match o.payload with
    | some payload => "Some(" ++ Text.quote payload ++ ")"
    | none => "None"
  "RObject \x7b class_name: " ++ Text.quote o.className ++ ", payload: " ++ payload ++
    ", object_id: " ++ toString id ++ " \x7d"

end RubyRuntime
