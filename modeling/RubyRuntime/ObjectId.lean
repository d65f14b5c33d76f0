import RubyRuntime.Value
import RubyRuntime.Text.Numeral

/-!
# Object ids

Immediates have ids computed from their bits: `false` 0, `nil` 8, `true` 20, a fixnum `n` of
`[-2 ^ 62, 2 ^ 62)` has `2 n + 1`, any other fixnum `2 ^ 64` plus its 64-bit pattern, a float
`2 ^ 65` plus its bits. Objects and symbols get `8 + 16 k` from a counter. `Identified` says what
an id stands for; `Identified.id` and `decode` are inverse to each other.
-/
namespace RubyRuntime.ObjectId

def falseId : Int := 0
def nilId : Int := 8
def trueId : Int := 20
def counterStart : Nat := 8
def counterStride : Nat := 16

def wordBound : Nat := Nat.pow 2 64

/-- Fixnums whose double fits into a signed 64-bit word. -/
def isSmall (n : Int) : Bool :=
  -(Int.pow 2 62) ≤ n && n < Int.pow 2 62

inductive Identified where
  | nil
  | boolean (b : Bool)
  | fixnum (n : Int64)
  | float (bits : UInt64)
  | counter (id : Nat)
  deriving DecidableEq

def Identified.id : Identified → Int
  | nil => nilId
  | boolean b => if b then trueId else falseId
  | fixnum n => if isSmall n.toInt then 2 * n.toInt + 1 else Int.pow 2 64 + n.toInt % Int.pow 2 64
  | float bits => Int.pow 2 65 + bits.toNat
  | counter id => id

def ofImmediate? : Value → Option Identified
  | .nil => some .nil
  | .bool b => some (.boolean b)
  | .integer n => some (.fixnum n)
  | .float bits => some (.float bits)
  | .symbol _ | .object _ => none

def ofValue? (v : Value) : Option Int :=
  (ofImmediate? v).map Identified.id

def isCounterId (raw : Int) : Bool :=
  counterStart < raw && raw < wordBound && (raw - counterStart) % counterStride == 0

def decode (raw : Int) : Option Identified :=
  if raw = falseId then some (.boolean false)
  else if raw = nilId then some .nil
  else if raw = trueId then some (.boolean true)
  else if raw / Int.pow 2 64 = 1 then
    let n := Int64.ofInt (raw % Int.pow 2 64)
    if isSmall n.toInt then none else some (.fixnum n)
  else if raw / Int.pow 2 64 = 2 then some (.float (UInt64.ofNat (raw % Int.pow 2 64).toNat))
  else if raw % 2 = 1 then
    let n := (raw - 1) / 2
    if isSmall n then some (.fixnum (Int64.ofInt n)) else none
  else if isCounterId raw then some (.counter raw.toNat)
  else none

/-- Hexadecimal form with at least sixteen digits; a negative id is shown in 128 bits. -/
def hex (raw : Int) : String :=
  "0x" ++ Text.paddedHex 16 (raw % Int.pow 2 128).toNat

end RubyRuntime.ObjectId
