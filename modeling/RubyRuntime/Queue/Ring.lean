/-!
# Ring buffers

A fixed number of slots in a circle. The items stand from `takeEnd` on, wrapping around at the end
of the slots; the next item goes to `addEnd`. The slots are allocated at once. How much memory there
is does not matter here, but no allocation can ask for more bytes than a signed word counts.
-/
namespace RubyRuntime

structure Ring (α : Type) where
  slots : Array (Option α)
  addEnd : Nat
  takeEnd : Nat
  size : Nat

namespace Ring

variable {α : Type}

/-- The most bytes that an allocation can ask for. -/
def maxBytes : Nat := Nat.pow 2 63 - 1

def overflowText : String := "capacity overflow"

def empty (length : Nat) : Ring α :=
  ⟨Array.replicate length none, 0, 0, 0⟩

def index (ring : Ring α) (i : Nat) : Nat :=
  (ring.takeEnd + i) % ring.slots.size

def toList (ring : Ring α) : List α :=
  (List.range ring.size).filterMap fun i => (ring.slots[ring.index i]?).join

def push (item : α) (ring : Ring α) : Ring α :=
  { ring with
    slots := ring.slots.setIfInBounds ring.addEnd (some item)
    addEnd := (ring.addEnd + 1) % ring.slots.size
    size := ring.size + 1 }

def pop (ring : Ring α) : Option α × Ring α :=
  if ring.size = 0 then (none, ring)
  else
    ((ring.slots[ring.takeEnd]?).join,
      { ring with
        slots := ring.slots.setIfInBounds ring.takeEnd none
        takeEnd := (ring.takeEnd + 1) % ring.slots.size
        size := ring.size - 1 })

/-- The same items in a ring of `length` slots, from slot 0 on. -/
def relinearize (length : Nat) (ring : Ring α) : Ring α :=
  let items := (List.range ring.size).map fun i => (ring.slots[ring.index i]?).join
  { slots := (items ++ List.replicate (length - ring.size) none).toArray
    addEnd := ring.size % length
    takeEnd := 0
    size := ring.size }

def empty? (slotBytes length : Nat) : Option (Ring α) :=
  if length * slotBytes ≤ maxBytes then some (empty length) else none

def relinearize? (slotBytes length : Nat) (ring : Ring α) : Option (Ring α) :=
  if length * slotBytes ≤ maxBytes then some (ring.relinearize length) else none

end Ring

end RubyRuntime
