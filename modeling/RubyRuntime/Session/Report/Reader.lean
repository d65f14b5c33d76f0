import RubyRuntime.Session.Report

/-!
# Reading reports

A report is read back from its text, which may have blanks between its parts. Every function takes
the characters that are left and gives back what it read with the rest, or nothing when the text is
malformed. Of two fields with one name the later counts.
-/
namespace RubyRuntime.Report

def skipBlanks (text : List Char) : List Char :=
  text.dropWhile fun c => c == ' ' || c == '\t' || c == '\n' || c == '\r'

def surrogates? (high low : Nat) : Option Char :=
  if 0xdc00 ≤ low ∧ low < 0xe000 then
    some (Char.ofNat (0x10000 + (high - 0xd800) * 0x400 + (low - 0xdc00)))
  else none

/-- The character of a hexadecimal escape, read behind its mark. One beyond the first `2 ^ 16` is
written as two escapes. -/
def codeUnits? (text : List Char) : Option (Char × List Char) := do
  let (first, rest) ← Text.hexDigits? 4 text
  if first.isValidChar then some (Char.ofNat first, rest)
  else match rest with
    | '\\' :: 'u' :: rest => do
      let (second, rest) ← Text.hexDigits? 4 rest
      if first < 0xdc00 then (surrogates? first second).map (·, rest) else none
    | _ => none

def escape? : List Char → Option (Char × List Char)
  | '"' :: rest => some ('"', rest)
  | '\\' :: rest => some ('\\', rest)
  | '/' :: rest => some ('/', rest)
  | 'b' :: rest => some ('\x08', rest)
  | 'f' :: rest => some ('\x0c', rest)
  | 'n' :: rest => some ('\n', rest)
  | 'r' :: rest => some ('\r', rest)
  | 't' :: rest => some ('\t', rest)
  | 'u' :: rest => codeUnits? rest
  | _ => none

def text? : Nat → List Char → List Char → Option (String × List Char)
  | 0, _, _ => none
  | _ + 1, _, [] => none
  | fuel + 1, acc, c :: rest =>
    if c = '"' then some (String.ofList acc.reverse, rest)
    else if c = '\\' then do
      let (escaped, rest) ← escape? rest
      text? fuel (escaped :: acc) rest
    else if c.toNat < 0x20 then none
    else text? fuel (c :: acc) rest

def setField (name : String) (value : Report) : List (String × Report) → List (String × Report)
  | [] => [(name, value)]
  | other :: rest =>
    if name < other.1 then (name, value) :: other :: rest
    else if name = other.1 then (name, value) :: rest
    else other :: setField name value rest

mutual

def value? : Nat → List Char → Option (Report × List Char)
  | 0, _ => none
  | fuel + 1, source =>
    match skipBlanks source with
    | 'n' :: 'u' :: 'l' :: 'l' :: rest => some (null, rest)
    | 't' :: 'r' :: 'u' :: 'e' :: rest => some (bool true, rest)
    | 'f' :: 'a' :: 'l' :: 's' :: 'e' :: rest => some (bool false, rest)
    | '"' :: rest => (text? (rest.length + 1) [] rest).map fun (s, rest) => (.text s, rest)
    | '[' :: rest =>
      match skipBlanks rest with
      | ']' :: rest => some (list [], rest)
      | rest => items? fuel [] rest
    | '\x7b' :: rest =>
      match skipBlanks rest with
      | '\x7d' :: rest => some (record [], rest)
      | rest => fields? fuel [] rest
    | rest => (Decimal.number? rest).map fun (n, rest) => (number n, rest)

def items? : Nat → List Report → List Char → Option (Report × List Char)
  | 0, _, _ => none
  | fuel + 1, items, source => do
    let (item, rest) ← value? fuel source
    match skipBlanks rest with
    | ',' :: rest => items? fuel (item :: items) rest
    | ']' :: rest => some (list (item :: items).reverse, rest)
    | _ => none

def fields? : Nat → List (String × Report) → List Char → Option (Report × List Char)
  | 0, _, _ => none
  | fuel + 1, fields, source => do
    let '"' :: rest := skipBlanks source | none
    let (name, rest) ← text? (rest.length + 1) [] rest
    let ':' :: rest := skipBlanks rest | none
    let (value, rest) ← value? fuel rest
    match skipBlanks rest with
    | ',' :: rest => fields? fuel (setField name value fields) rest
    | '\x7d' :: rest => some (record (setField name value fields), rest)
    | _ => none

end

/-- The report that a text denotes. Of two steps of the reader one takes a character, so twice the
length of the text bounds their number. -/
def parse? (source : String) : Option Report := do
  let (report, rest) ← value? (2 * source.length + 2) source.toList
  if (skipBlanks rest).isEmpty then some report else none

end RubyRuntime.Report
