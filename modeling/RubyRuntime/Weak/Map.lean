import RubyRuntime.Error
import RubyRuntime.Value

/-!
# Weak maps

A map keyed by identity that keeps neither its keys nor its values alive. Which objects are alive is
a parameter of every operation. An entry whose key or value is dead is absent; writing operations,
counting and listing sweep such entries out.
-/
namespace RubyRuntime

def Value.isAlive (alive : ObjectRef → Bool) : Value → Bool
  | object o => alive o
  | _ => true

/-- The two weakly held sides of an entry. -/
structure WeakEntry where
  key : Value
  value : Value
  deriving DecidableEq

namespace WeakEntry

def isAlive (alive : ObjectRef → Bool) (entry : WeakEntry) : Bool :=
  entry.key.isAlive alive && entry.value.isAlive alive

def valueOf? (alive : ObjectRef → Bool) (key : Value) (entry : WeakEntry) : Option Value :=
  if entry.key.isAlive alive && entry.key.identical key && entry.value.isAlive alive then
    some entry.value
  else none

end WeakEntry

/-- The entries by the identity of their keys. -/
structure WeakMap where
  entries : List (IdentityKey × WeakEntry) := []

namespace WeakMap

def sweep (alive : ObjectRef → Bool) (map : WeakMap) : WeakMap :=
  ⟨map.entries.filter fun entry => entry.2.isAlive alive⟩

private def without (key : IdentityKey) (entries : List (IdentityKey × WeakEntry)) :
    List (IdentityKey × WeakEntry) :=
  entries.filter fun entry => entry.1 ≠ key

def set (alive : ObjectRef → Bool) (key value : Value) (map : WeakMap) : WeakMap :=
  ⟨without key.identityKey (map.sweep alive).entries ++ [(key.identityKey, ⟨key, value⟩)]⟩

def get? (alive : ObjectRef → Bool) (key : Value) (map : WeakMap) : Option Value :=
  (map.entries.lookup key.identityKey).bind (·.valueOf? alive key)

def isKey (alive : ObjectRef → Bool) (key : Value) (map : WeakMap) : Bool :=
  (map.get? alive key).isSome

def delete (alive : ObjectRef → Bool) (key : Value) (map : WeakMap) : Option Value × WeakMap :=
  let map := map.sweep alive
  match map.get? alive key with
  | some value => (some value, ⟨without key.identityKey map.entries⟩)
  | none => (none, map)

def size (alive : ObjectRef → Bool) (map : WeakMap) : Nat :=
  (map.sweep alive).entries.length

def pairs (alive : ObjectRef → Bool) (map : WeakMap) : List (Value × Value) :=
  (map.sweep alive).entries.map fun entry => (entry.2.key, entry.2.value)

def pairTexts (pairs : List (Value × Value)) : List String :=
  pairs.map fun pair => pair.1.inspect ++ " => " ++ pair.2.inspect

def inspectOf (texts : List String) : String :=
  let body := ", ".intercalate texts
  if body.isEmpty then "#<ObjectSpace::WeakMap>" else "#<ObjectSpace::WeakMap " ++ body ++ ">"

end WeakMap

end RubyRuntime
