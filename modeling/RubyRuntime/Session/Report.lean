import RubyRuntime.Decimal.Display
import RubyRuntime.Decimal.Literal

/-!
# Reports

What a session answers with: trees of texts, numbers, lists and records. Lists whose order means
nothing are put in the order of the compact texts of their items.
-/
namespace RubyRuntime

inductive Report where
  | null
  | bool (b : Bool)
  | number (n : Decimal.Number)
  | text (s : String)
  | list (items : List Report)
  | record (fields : List (String × Report))
  deriving Inhabited

namespace Report

def int (n : Int) : Report := number (.whole n)

def nat (n : Nat) : Report := int n

def textOrNull : Option String → Report
  | some s => text s
  | none => null

def texts (items : List String) : Report :=
  list (items.map text)

def compactChar (c : Char) : String :=
  if c = '"' then "\\\""
  else if c = '\\' then "\\\\"
  else if c = '\n' then "\\n"
  else if c = '\t' then "\\t"
  else if c = '\r' then "\\r"
  else if c = '\x08' then "\\b"
  else if c = '\x0c' then "\\f"
  else if c.toNat < 0x20 then "\\u" ++ Text.paddedHex 4 c.toNat
  else String.singleton c

def compactText (s : String) : String :=
  "\"" ++ String.join (s.toList.map compactChar) ++ "\""

def compactNumber : Decimal.Number → String
  | .whole n => toString n
  | .binary bits => Decimal.display bits

def insertField (field : String × String) : List (String × String) → List (String × String)
  | [] => [field]
  | other :: rest =>
    if field.1 ≤ other.1 then field :: other :: rest else other :: insertField field rest

mutual

/-- The text of a report without blanks, the fields of records in the order of their names. -/
def compact : Report → String
  | null => "null"
  | bool b => if b then "true" else "false"
  | number n => compactNumber n
  | text s => compactText s
  | list items => "[" ++ ",".intercalate (compactItems items) ++ "]"
  | record fields =>
    "\x7b" ++ ",".intercalate ((compactFields fields).map fun field =>
      compactText field.1 ++ ":" ++ field.2) ++ "\x7d"

def compactItems : List Report → List String
  | [] => []
  | item :: rest => item.compact :: compactItems rest

def compactFields : List (String × Report) → List (String × String)
  | [] => []
  | (name, field) :: rest => insertField (name, field.compact) (compactFields rest)

end

def sorted (items : List Report) : Report :=
  let keyed := items.map fun item => (item.compact, item)
  list ((keyed.mergeSort fun a b => decide (a.1 ≤ b.1)).map (·.2))

end Report

end RubyRuntime
