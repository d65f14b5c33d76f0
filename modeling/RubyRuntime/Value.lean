import RubyRuntime.Text.Quoted
import RubyRuntime.Decimal.Display

/-!
# Values

A value is an immediate or a reference to a heap object. Class and payload of an object never
change and travel with the reference; what may change is kept by the heap. `identical` compares
identities, `eql` compares objects with a payload by class and payload.
-/
namespace RubyRuntime

/-- A reference to a heap object. Two objects never share a serial number; the address of a dead
object may be given to a later one. -/
structure ObjectRef where
  serial : Nat
  address : Nat
  className : String
  payload : Option String
  deriving DecidableEq, Repr

inductive Value where
  | nil
  | bool (b : Bool)
  | integer (n : Int64)
  | float (bits : UInt64)
  | symbol (name : String)
  | object (o : ObjectRef)
  deriving DecidableEq

inductive IdentityKey where
  | nil
  | bool (b : Bool)
  | integer (n : Int64)
  | float (bits : UInt64)
  | symbol (name : String)
  | object (address : Nat)
  deriving DecidableEq

namespace Value

def isNil : Value → Bool
  | nil => true
  | _ => false

def asObject? : Value → Option ObjectRef
  | object o => some o
  | _ => none

def isCollectable (v : Value) : Bool :=
  v.asObject?.isSome

def identityKey : Value → IdentityKey
  | nil => .nil
  | bool b => .bool b
  | integer n => .integer n
  | float bits => .float bits
  | symbol name => .symbol name
  | object o => .object o.address

def identical (a b : Value) : Bool :=
  a.identityKey == b.identityKey

/-- Objects that both have a payload are compared by class and payload, all else by identity. -/
def eql : Value → Value → Bool
  | object a, object b =>
    match a.payload, b.payload with
    | some p, some q => a.className == b.className && p == q
    | _, _ => a.serial == b.serial
  | a, b => a.identical b

def inspect : Value → String
  | nil => "nil"
  | bool b => if b then "true" else "false"
  | integer n => toString n.toInt
  | float bits => Decimal.display bits
  | symbol name => ":" ++ name
  | object o =>
    match o.payload with
    | some payload => Text.quote payload
    | none => "#<" ++ o.className ++ ">"

end Value

end RubyRuntime
