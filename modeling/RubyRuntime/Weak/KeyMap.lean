import RubyRuntime.Weak.Map

/-!
# Weak key maps

A map that holds its keys weakly and its values strongly. Keys with a payload are found by class and
payload, others by identity. A value may keep a key of the same map alive, so dropping one entry can
kill the key of another: a sweep looks at each entry once, in order, with the liveness of that
moment. Objects held from outside the map are a parameter of every operation.
-/
namespace RubyRuntime

def Value.refersTo (o : ObjectRef) : Value → Bool
  | object p => p.serial == o.serial
  | _ => false

inductive EqlKey where
  | payload (className payload : String)
  | identity (address : Nat)
  deriving DecidableEq

def ObjectRef.eqlKey (o : ObjectRef) : EqlKey :=
  match o.payload with
  | some payload => .payload o.className payload
  | none => .identity o.address

structure KeyEntry where
  key : ObjectRef
  value : Value
  deriving DecidableEq

/-- The entries by what their keys are looked up by, in the order in which a sweep visits them. -/
structure WeakKeyMap where
  entries : List (EqlKey × KeyEntry) := []

namespace WeakKeyMap

/-- An object is alive if it is held from outside or by the value of an entry. -/
def isAlive (held : ObjectRef → Bool) (entries : List (EqlKey × KeyEntry)) (o : ObjectRef) :
    Bool :=
  held o || entries.any fun entry => entry.2.value.refersTo o

/-- Visits the entries of the second list; those of the first have been visited and kept. -/
def sweepFrom (held : ObjectRef → Bool) :
    List (EqlKey × KeyEntry) → List (EqlKey × KeyEntry) → List (EqlKey × KeyEntry)
  | kept, [] => kept
  | kept, entry :: rest =>
    if isAlive held (kept ++ entry :: rest) entry.2.key then sweepFrom held (kept ++ [entry]) rest
    else sweepFrom held kept rest

def sweep (held : ObjectRef → Bool) (map : WeakKeyMap) : WeakKeyMap :=
  ⟨sweepFrom held [] map.entries⟩

/-- The entry of `key`, if its stored key is alive and equal to it. -/
def entry? (held : ObjectRef → Bool) (key : ObjectRef) (map : WeakKeyMap) : Option KeyEntry :=
  (map.entries.lookup key.eqlKey).filter fun entry =>
    isAlive held map.entries entry.key && (Value.object entry.key).eql (.object key)

def store (key : EqlKey) (entry : KeyEntry) :
    List (EqlKey × KeyEntry) → List (EqlKey × KeyEntry)
  | [] => [(key, entry)]
  | (k, old) :: rest =>
    if k = key then (k, entry) :: rest else (k, old) :: store key entry rest

/-- Sweeps and then stores the value. A live stored key that is equal stays the key. -/
def set (held : ObjectRef → Bool) (key value : Value) (map : WeakKeyMap) :
    Except Error WeakKeyMap :=
  match key.asObject? with
  | none => .error Cause.uncollectableKey.error
  | some object =>
    let map := map.sweep held
    let stored := match map.entry? held object with
      | some entry => entry.key
      | none => object
    .ok ⟨store object.eqlKey ⟨stored, value⟩ map.entries⟩

def lookup? (held : ObjectRef → Bool) (key : Value) (map : WeakKeyMap) : Option KeyEntry :=
  key.asObject?.bind fun object => map.entry? held object

def get? (held : ObjectRef → Bool) (key : Value) (map : WeakKeyMap) : Option Value :=
  (map.lookup? held key).map (·.value)

def getKey? (held : ObjectRef → Bool) (key : Value) (map : WeakKeyMap) : Option Value :=
  (map.lookup? held key).map fun entry => .object entry.key

def isKey (held : ObjectRef → Bool) (key : Value) (map : WeakKeyMap) : Bool :=
  (map.lookup? held key).isSome

/-- Sweeps and then removes the value of `key`; an immediate key does not even sweep. -/
def delete (held : ObjectRef → Bool) (key : Value) (map : WeakKeyMap) :
    Option Value × WeakKeyMap :=
  match key.asObject? with
  | none => (none, map)
  | some object =>
    let map := map.sweep held
    match map.entry? held object with
    | some entry =>
      (some entry.value, ⟨map.entries.filter fun e => e.1 ≠ object.eqlKey⟩)
    | none => (none, map)

def clear : WeakKeyMap := {}

def size (held : ObjectRef → Bool) (map : WeakKeyMap) : Nat :=
  (map.sweep held).entries.length

def inspectOf (size : Nat) : String :=
  "#<ObjectSpace::WeakKeyMap size=" ++ toString size ++ ">"

end WeakKeyMap

end RubyRuntime
