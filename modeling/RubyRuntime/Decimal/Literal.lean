import RubyRuntime.Decimal.Nearest
import RubyRuntime.Text.Numeral

/-!
# Decimal literals

A literal has digits, perhaps a fraction behind a point, and perhaps an exponent of ten. One with
neither that fits a 64-bit word, signed or unsigned, is a whole number. Any other is a binary64
number, read as a significand below `2 ^ 64` that is scaled by a power of ten. The significand, the
power and their product or quotient are rounded one after the other, so the result may differ from
the nearest number in its last bits.
-/
namespace RubyRuntime.Decimal

inductive Number where
  | whole (n : Int)
  | binary (bits : UInt64)

structure Literal where
  negative : Bool
  whole : List Nat
  fraction : List Nat
  exponent : Option Int

/-- Appends digits to a significand as long as it stays below `2 ^ 64`; gives it with the number of
digits that are left. -/
def extend (significand : Nat) : List Nat → Nat × Nat
  | [] => (significand, 0)
  | digit :: rest =>
    if 10 * significand + digit < Nat.pow 2 64 then extend (10 * significand + digit) rest
    else (significand, rest.length + 1)

def Ratio.scale? (r : Ratio) (exponent : Int) : Option Ratio := do
  let power ← (Ratio.ofDecimal 1 exponent.natAbs).rounded?
  if exponent < 0 then (Ratio.mk (r.num * power.den) (r.den * power.num)).rounded?
  else (Ratio.mk (r.num * power.num) (r.den * power.den)).rounded?

/-- The number `significand * 10 ^ exponent`, rounded after every step; nothing if it is too large.
No power beyond `10 ^ 308` is finite, so a smaller exponent takes two divisions, and where these do
not suffice nothing is left of any significand. -/
def scaled? (significand : Nat) (exponent : Int) : Option Ratio := do
  let start ← (Ratio.ofDecimal significand 0).rounded?
  if significand = 0 ∨ exponent < -616 then some ⟨0, 1⟩
  else if exponent < -308 then (← start.scale? (-308)).scale? (exponent + 308)
  else if exponent ≤ 308 then start.scale? exponent
  else none

def signedBits (negative : Bool) (size : Ratio) : UInt64 :=
  if negative then size.nearest + UInt64.ofNat (Nat.pow 2 63) else size.nearest

namespace Literal

/-- The binary64 number of a literal. Digits in front of the point that the significand does not
take count as powers of ten, those behind it not at all. -/
def binary? (l : Literal) : Option Number := do
  let (significand, dropped) := extend 0 l.whole
  let (significand, ignored) := extend significand l.fraction
  let places : Int := (l.fraction.length : Int) - ignored
  let size ← scaled? significand (dropped - places + l.exponent.getD 0)
  some (.binary (signedBits l.negative size))

def wholePart (l : Literal) : Int :=
  let n : Nat := l.whole.foldl (fun value digit => 10 * value + digit) 0
  if l.negative then -(n : Int) else n

def isWhole (l : Literal) : Bool :=
  l.fraction.isEmpty && l.exponent.isNone && !(l.negative && l.wholePart == 0) &&
    decide (-(Int.pow 2 63) ≤ l.wholePart ∧ l.wholePart < Int.pow 2 64)

def number? (l : Literal) : Option Number :=
  if l.isWhole then some (.whole l.wholePart) else l.binary?

end Literal

def digits (text : List Char) : List Nat × List Char :=
  let front := text.takeWhile Char.isDigit
  (front.filterMap (Text.digit? 10), text.drop front.length)

def wholeDigits? (text : List Char) : Option (List Nat × List Char) :=
  match digits text with
  | ([], _) => none
  | (0 :: _ :: _, _) => none
  | found => some found

def fractionDigits? : List Char → Option (List Nat × List Char)
  | '.' :: text =>
    match digits text with
    | ([], _) => none
    | found => some found
  | text => some ([], text)

def exponentDigits? (negative : Bool) (text : List Char) : Option (Int × List Char) :=
  match digits text with
  | ([], _) => none
  | (found, rest) =>
    let size : Nat := found.foldl (fun value digit => 10 * value + digit) 0
    some (if negative then -(size : Int) else size, rest)

def exponent? (text : List Char) : Option (Option Int × List Char) :=
  let signed? := fun (rest : List Char) => match rest with
    | '-' :: rest => exponentDigits? true rest
    | '+' :: rest => exponentDigits? false rest
    | rest => exponentDigits? false rest
  match text with
  | 'e' :: rest | 'E' :: rest => (signed? rest).map fun (n, rest) => (some n, rest)
  | _ => some (none, text)

def literal? (text : List Char) : Option (Literal × List Char) := do
  let (negative, text) := match text with
    | '-' :: rest => (true, rest)
    | _ => (false, text)
  let (whole, text) ← wholeDigits? text
  let (fraction, text) ← fractionDigits? text
  let (exponent, text) ← exponent? text
  some ({ negative, whole, fraction, exponent }, text)

def number? (text : List Char) : Option (Number × List Char) := do
  let (l, rest) ← literal? text
  (l.number?).map (·, rest)

end RubyRuntime.Decimal
