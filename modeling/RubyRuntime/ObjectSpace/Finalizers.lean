import RubyRuntime.Value

/-!
# Finalizers

Finalizers are kept under the address of their object without keeping it alive. When the address is
found to belong to a dead object, that object's finalizers are put aside, still to be run.
-/
namespace RubyRuntime

structure FinalizerEntry (φ : Type) where
  object : ObjectRef
  objectId : Nat
  finalizers : List φ

structure FinalizerTable (φ : Type) where
  entries : List (Nat × FinalizerEntry φ) := []
  /-- Entries of dead objects whose address has been used again. -/
  orphaned : List (FinalizerEntry φ) := []

namespace FinalizerTable

variable {φ : Type}

private def others (address : Nat) (entries : List (Nat × FinalizerEntry φ)) :
    List (Nat × FinalizerEntry φ) :=
  entries.filter fun entry => entry.1 ≠ address

def define (alive : ObjectRef → Bool) (o : ObjectRef) (objectId : Nat) (finalizer : φ)
    (table : FinalizerTable φ) : FinalizerTable φ :=
  match table.entries.lookup o.address with
  | some entry =>
    if alive entry.object then
      { table with
        entries := others o.address table.entries ++
          [(o.address, { entry with finalizers := entry.finalizers ++ [finalizer] })] }
    else
      { entries := others o.address table.entries ++ [(o.address, ⟨o, objectId, [finalizer]⟩)]
        orphaned := table.orphaned ++ [entry] }
  | none =>
    { table with entries := table.entries ++ [(o.address, ⟨o, objectId, [finalizer]⟩)] }

def undefine (alive : ObjectRef → Bool) (o : ObjectRef) (table : FinalizerTable φ) :
    Nat × FinalizerTable φ :=
  match table.entries.lookup o.address with
  | some entry =>
    if alive entry.object && entry.object.serial == o.serial then
      (entry.finalizers.length, { table with entries := others o.address table.entries })
    else (0, table)
  | none => (0, table)

def takeDead (alive : ObjectRef → Bool) (table : FinalizerTable φ) :
    List (FinalizerEntry φ) × FinalizerTable φ :=
  let dead := table.entries.filter fun entry => !alive entry.2.object
  (table.orphaned ++ dead.map (·.2),
    { entries := table.entries.filter fun entry => alive entry.2.object, orphaned := [] })

def takeAll (table : FinalizerTable φ) : List (FinalizerEntry φ) × FinalizerTable φ :=
  (table.orphaned ++ table.entries.map (·.2), {})

def size (table : FinalizerTable φ) : Nat :=
  table.entries.length

/-- The calls that entries come to: by increasing object id, those of one object oldest first. -/
def calls (entries : List (FinalizerEntry φ)) : List (Nat × φ) :=
  (entries.mergeSort fun a b => a.objectId ≤ b.objectId).flatMap fun entry =>
    entry.finalizers.map (entry.objectId, ·)

end FinalizerTable

end RubyRuntime
