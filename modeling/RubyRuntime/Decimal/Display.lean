import RubyRuntime.Decimal.Shortest

/-!
# Floating-point literals

A number is written with its shortest digits: in positional form with at least one decimal when
its magnitude is zero or lies between `10 ^ -4` and `10 ^ 16`, in exponent form otherwise. An
exponent carries neither a plus sign nor padding, and a single digit has no point behind it.
-/
namespace RubyRuntime.Decimal

def positional (decimal : Scientific) : String :=
  let digits := Nat.toDigits 10 decimal.digits
  if decimal.exponent ≥ 0 then
    String.ofList (digits ++ List.replicate decimal.exponent.toNat '0') ++ ".0"
  else
    let places := (-decimal.exponent).toNat
    let padded := List.replicate (places + 1 - digits.length) '0' ++ digits
    let whole := padded.length - places
    String.ofList (padded.take whole) ++ "." ++ String.ofList (padded.drop whole)

def scientific (decimal : Scientific) : String :=
  let digits := Nat.toDigits 10 decimal.digits
  let exponent := decimal.exponent + (digits.length : Int) - 1
  let tail := digits.drop 1
  let fraction := if tail.isEmpty then "" else "." ++ String.ofList tail
  String.ofList (digits.take 1) ++ fraction ++ "e" ++ toString exponent

def Magnitude.display : Magnitude → String
  | .notANumber => "NaN"
  | .infinite => "inf"
  | .zero => "0.0"
  | .finite b =>
    let decimal := b.shortest
    let order := decimal.exponent + ((Nat.toDigits 10 decimal.digits).length : Int) - 1
    if -4 ≤ order ∧ order < 16 then positional decimal else scientific decimal

/-- The literal of the number with the given bits. A number that is not a number has no sign. -/
def display (bits : UInt64) : String :=
  match magnitude bits with
  | .notANumber => Magnitude.notANumber.display
  | size => if isNegative bits then "-" ++ size.display else size.display

end RubyRuntime.Decimal
