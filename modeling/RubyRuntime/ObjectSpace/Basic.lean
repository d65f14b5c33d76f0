import RubyRuntime.ObjectSpace.Allocations
import RubyRuntime.ObjectSpace.Finalizers
import RubyRuntime.ObjectSpace.Ids

/-!
# Object spaces

An object space joins the assigned ids, the allocation records and the finalizers of a runtime.
-/
namespace RubyRuntime

structure ObjectSpace (φ : Type) where
  ids : IdTable := {}
  allocations : AllocationTable := {}
  finalizers : FinalizerTable φ := {}

namespace ObjectSpace

variable {φ : Type}

def idOf? (me : Nat) (v : Value) (heap : Heap) (space : ObjectSpace φ) :
    Option Int × Heap × ObjectSpace φ :=
  match v with
  | .symbol name =>
    match space.ids.symbolId? name with
    | some (id, ids) => (some id, heap, { space with ids })
    | none => (none, heap, space)
  | .object o =>
    let (id, heap, ids) := objectId? me o heap space.ids
    (id.map Int.ofNat, heap, { space with ids })
  | v => (ObjectId.ofValue? v, heap, space)

/-- Forgets what is known about dead objects, except for their finalizers. -/
def sweep (alive : ObjectRef → Bool) (space : ObjectSpace φ) : ObjectSpace φ :=
  { space with ids := space.ids.sweep alive, allocations := space.allocations.sweep alive }

end ObjectSpace

def idsExhausted : String :=
  fatalText "object id space exhausted"

end RubyRuntime
