import RubyRuntime.Decimal.Shortest

/-!
# Nearest binary64 numbers

Rounding a fraction to the binary64 number nearest to it, of two equally near ones to the one whose
last bit is zero. The result is given by its bits, which count the numbers from zero upward, so a
mantissa that is rounded up to the next power of two carries into the exponent by itself.
-/
namespace RubyRuntime.Decimal

def Ratio.order (r : Ratio) : Int :=
  let guess : Int := (r.num.log2 : Int) - r.den.log2
  if r.less (Ratio.ofBinary 1 guess) then guess - 1 else guess

def Ratio.round (r : Ratio) : Nat :=
  let below := r.num / r.den
  let twice := 2 * (r.num % r.den)
  if r.den < twice ∨ (twice = r.den ∧ below % 2 = 1) then below + 1 else below

def infinityBits : Nat := 2047 * Nat.pow 2 52

/-- The bits of the binary64 number nearest to a fraction. From halfway to the power of two above
the largest finite number on, that is infinity. -/
def Ratio.nearest (r : Ratio) : UInt64 :=
  if r.num = 0 then 0
  else
    let exponent := max (-1074) (r.order - 52)
    let mantissa : Ratio := ⟨r.num * Nat.pow 2 (-exponent).toNat, r.den * Nat.pow 2 exponent.toNat⟩
    UInt64.ofNat (min infinityBits ((exponent + 1074).toNat * Nat.pow 2 52 + mantissa.round))

def Magnitude.ratio? : Magnitude → Option Ratio
  | .zero => some ⟨0, 1⟩
  | .finite b => some (Ratio.ofBinary b.mantissa b.exponent)
  | .infinite | .notANumber => none

def Ratio.rounded? (r : Ratio) : Option Ratio :=
  (magnitude r.nearest).ratio?

end RubyRuntime.Decimal
