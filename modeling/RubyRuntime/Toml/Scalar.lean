import RubyRuntime.Text.Numeral
import RubyRuntime.Toml.Document

/-!
# Bare scalars of configuration documents

Numbers, truth values, dates and times, each recognised on the characters that stand between two
delimiters. Underscores may separate digits, leading zeros are refused in decimal integers, and a
float must not exceed the binary64 range upward.
-/
namespace RubyRuntime.Toml
open Text (digit?)

def isDecimal (c : Char) : Bool := (digit? 10 c).isSome

def grouped? (base : Nat) : List Char → Option Nat
  | [] => none
  | first :: rest => do
    let start ← digit? base first
    go start rest
where
  go (value : Nat) : List Char → Option Nat
    | [] => some value
    | '_' :: c :: rest => (digit? base c).bind fun d => go (base * value + d) rest
    | c :: rest => (digit? base c).bind fun d => go (base * value + d) rest

def sign : List Char → Bool × List Char
  | '+' :: rest => (false, rest)
  | '-' :: rest => (true, rest)
  | rest => (false, rest)

def wholePart? (digits : List Char) : Option Nat :=
  match digits with
  | '0' :: _ :: _ => none
  | _ => grouped? 10 digits

def integer? (text : List Char) : Option Int := do
  let n : Int ← match text with
    | '0' :: 'x' :: digits => (grouped? 16 digits).map Int.ofNat
    | '0' :: 'o' :: digits => (grouped? 8 digits).map Int.ofNat
    | '0' :: 'b' :: digits => (grouped? 2 digits).map Int.ofNat
    | _ =>
      let (negative, digits) := sign text
      (wholePart? digits).map fun n => if negative then -(n : Int) else n
  if -(Int.pow 2 63) ≤ n ∧ n < Int.pow 2 63 then some n else none

/-- Whether `digits * 10 ^ exponent` rounds beyond the largest binary64 number. -/
def exceedsBinary64 (digits : Nat) (exponent : Int) : Bool :=
  let length : Int := (Nat.toDigits 10 digits).length
  if digits = 0 then false
  else if length - 1 + exponent ≥ 309 then true
  else if length + exponent ≤ 308 then false
  else
    digits * Nat.pow 10 exponent.toNat ≥
      (Nat.pow 2 1024 - Nat.pow 2 970) * Nat.pow 10 (-exponent).toNat

def exponent? : List Char → Option Int
  | [] => some 0
  | mark :: rest =>
    if mark = 'e' ∨ mark = 'E' then
      let (negative, digits) := sign rest
      (grouped? 10 digits).map fun n => if negative then -(n : Int) else n
    else none

/-- Whether the text is a float: a whole part followed by a fraction, an exponent or both, or one of
the words for infinity and not-a-number. -/
def isFloat (text : List Char) : Bool :=
  let (negative, body) := sign text
  if body = "inf".toList ∨ body = "nan".toList then true
  else
    let stop := fun c => c != '.' && c != 'e' && c != 'E'
    let whole := body.takeWhile stop
    match wholePart? whole, body.dropWhile stop with
    | some n, '.' :: rest =>
      let fraction := rest.takeWhile fun c => c != 'e' && c != 'E'
      let places := (fraction.filter isDecimal).length
      match grouped? 10 fraction, exponent? (rest.dropWhile fun c => c != 'e' && c != 'E') with
      | some f, some e => negative || !exceedsBinary64 (n * Nat.pow 10 places + f) (e - places)
      | _, _ => false
    | some n, mark :: rest =>
      match exponent? (mark :: rest) with
      | some e => negative || !exceedsBinary64 n e
      | none => false
    | _, _ => false

def fixedDigits? (count : Nat) (text : List Char) : Option (Nat × List Char) :=
  let digits := text.take count
  if digits.length = count ∧ digits.all isDecimal then
    (grouped? 10 digits).map (·, text.drop count)
  else none

def daysIn (year month : Nat) : Nat :=
  if month = 2 then
    if year % 4 = 0 ∧ (year % 100 ≠ 0 ∨ year % 400 = 0) then 29 else 28
  else if month = 4 ∨ month = 6 ∨ month = 9 ∨ month = 11 then 30
  else 31

def date? (text : List Char) : Option (List Char) := do
  let (year, text) ← fixedDigits? 4 text
  let '-' :: text := text | none
  let (month, text) ← fixedDigits? 2 text
  let '-' :: text := text | none
  let (day, text) ← fixedDigits? 2 text
  if 1 ≤ month ∧ month ≤ 12 ∧ 1 ≤ day ∧ day ≤ daysIn year month then some text else none

def time? (text : List Char) : Option (List Char) := do
  let (hour, text) ← fixedDigits? 2 text
  let ':' :: text := text | none
  let (minute, text) ← fixedDigits? 2 text
  let ':' :: text := text | none
  let (second, text) ← fixedDigits? 2 text
  if hour ≤ 23 ∧ minute ≤ 59 ∧ second ≤ 60 then
    match text with
    | '.' :: fraction =>
      if (fraction.takeWhile isDecimal).isEmpty then none else some (fraction.dropWhile isDecimal)
    | _ => some text
  else none

/-- Whether the text is a distance from universal time, or nothing. -/
def isOffset (text : List Char) : Bool :=
  match text with
  | [] | ['Z'] | ['z'] => true
  | '+' :: rest | '-' :: rest =>
    match fixedDigits? 2 rest with
    | some (hour, ':' :: rest) =>
      match fixedDigits? 2 rest with
      | some (minute, []) => hour ≤ 23 && minute ≤ 59
      | _ => false
    | _ => false
  | _ => false

def isDate (text : List Char) : Bool :=
  date? text == some []

def isZonedTime (text : List Char) : Bool :=
  ((time? text).map isOffset).getD false

def isDatetime (text : List Char) : Bool :=
  time? text == some [] ||
    match date? text with
    | some [] => true
    | some (mark :: rest) => (mark == 'T' || mark == 't') && isZonedTime rest
    | none => false

def scalar? (text : List Char) : Option Node :=
  if text = "true".toList then some (.boolean true)
  else if text = "false".toList then some (.boolean false)
  else match integer? text with
    | some n => some (.integer n)
    | none =>
      if isFloat text then some (.float (String.ofList text))
      else if isDatetime text then some (.datetime (String.ofList text))
      else none

end RubyRuntime.Toml
