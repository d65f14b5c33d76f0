/-!
# Shortest decimals of binary64 numbers

A finite nonzero binary64 number is `mantissa * 2 ^ exponent`. The decimals that read back as it
are those of the interval between the midpoints to its two neighbours. Of these the one with the
fewest digits is chosen, of two such the nearer, and of two equally near the larger.
-/
namespace RubyRuntime.Decimal

/-- The magnitude `mantissa * 2 ^ exponent` of a finite nonzero number. `narrow` says that the gap
below it is half the gap above it. -/
structure Binary where
  mantissa : Nat
  exponent : Int
  narrow : Bool

inductive Magnitude where
  | notANumber
  | infinite
  | zero
  | finite (b : Binary)

def isNegative (bits : UInt64) : Bool :=
  bits.toNat / Nat.pow 2 63 == 1

def magnitude (bits : UInt64) : Magnitude :=
  let biased : Nat := bits.toNat / Nat.pow 2 52 % Nat.pow 2 11
  let fraction : Nat := bits.toNat % Nat.pow 2 52
  if biased = Nat.pow 2 11 - 1 then
    if fraction = 0 then .infinite else .notANumber
  else if biased = 0 then
    if fraction = 0 then .zero else .finite ⟨fraction, -1074, false⟩
  else
    .finite ⟨Nat.pow 2 52 + fraction, (biased : Int) - 1075, fraction == 0 && biased != 1⟩

structure Ratio where
  num : Nat
  den : Nat

def Ratio.ofBinary (mantissa : Nat) (exponent : Int) : Ratio :=
  ⟨mantissa * Nat.pow 2 exponent.toNat, Nat.pow 2 (-exponent).toNat⟩

def Ratio.ofDecimal (digits : Nat) (exponent : Int) : Ratio :=
  ⟨digits * Nat.pow 10 exponent.toNat, Nat.pow 10 (-exponent).toNat⟩

def Ratio.less (a b : Ratio) : Bool :=
  a.num * b.den < b.num * a.den

/-- Whether the decimal `digits * 10 ^ exponent` reads back as `b`: it lies between the midpoints
to the neighbours of `b`, which belong to `b` when its mantissa is even. -/
def Binary.readsBack (b : Binary) (digits : Nat) (exponent : Int) : Bool :=
  let decimal := Ratio.ofDecimal digits exponent
  let low := if b.narrow then Ratio.ofBinary (4 * b.mantissa - 1) (b.exponent - 2)
    else Ratio.ofBinary (2 * b.mantissa - 1) (b.exponent - 1)
  let high := Ratio.ofBinary (2 * b.mantissa + 1) (b.exponent - 1)
  if b.mantissa % 2 = 0 then !decimal.less low && !high.less decimal
  else low.less decimal && decimal.less high

structure Scientific where
  digits : Nat
  exponent : Int

/-- Of the two multiples of `10 ^ exponent` next to `b`, the one that reads back as it; the nearer
when both do, the larger when they are equally near. -/
def Binary.onGrid (b : Binary) (exponent : Int) : Option Scientific :=
  let value := Ratio.ofBinary b.mantissa b.exponent
  let num := value.num * Nat.pow 10 (-exponent).toNat
  let den := value.den * Nat.pow 10 exponent.toNat
  let below := num / den
  let lower := b.readsBack below exponent
  let upper := b.readsBack (below + 1) exponent
  if lower && upper then
    if 2 * (num % den) < den then some ⟨below, exponent⟩ else some ⟨below + 1, exponent⟩
  else if lower then some ⟨below, exponent⟩
  else if upper then some ⟨below + 1, exponent⟩
  else none

private def orderFrom (value : Ratio) : Nat → Int → Int
  | 0, guess => guess
  | fuel + 1, guess =>
    if value.less (Ratio.ofDecimal 1 guess) then guess else orderFrom value fuel (guess + 1)

def Binary.order (b : Binary) : Int :=
  orderFrom (Ratio.ofBinary b.mantissa b.exponent) 700 (-324)

private def shortestFrom (b : Binary) : Nat → Int → Scientific
  | 0, exponent => ⟨b.mantissa, exponent⟩
  | fuel + 1, exponent =>
    match b.onGrid exponent with
    | some decimal => decimal
    | none => shortestFrom b fuel (exponent - 1)

private def trimZeros : Nat → Scientific → Scientific
  | 0, decimal => decimal
  | fuel + 1, decimal =>
    if decimal.digits % 10 = 0 ∧ decimal.digits ≠ 0 then
      trimZeros fuel ⟨decimal.digits / 10, decimal.exponent + 1⟩
    else decimal

/-- The decimal with the fewest digits that reads back as `b`; seventeen digits always suffice. -/
def Binary.shortest (b : Binary) : Scientific :=
  trimZeros 20 (shortestFrom b 18 (b.order - 1))

end RubyRuntime.Decimal
