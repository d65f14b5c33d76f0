import RubyRuntime.Toml.Scalar

/-!
# Reading configuration documents

A reader of TOML 1.0. Every function takes the characters that are left and gives back what it read
with the rest, or nothing when the text is malformed. Values nest less than eighty deep.
-/
namespace RubyRuntime.Toml

def nestingBound : Nat := 80

def isSpace (c : Char) : Bool := c == ' ' || c == '\t'

def isShown (c : Char) : Bool :=
  c == '\t' || (0x20 ≤ c.toNat && c.toNat != 0x7f)

def skipSpaces (text : List Char) : List Char := text.dropWhile isSpace

def newline? : List Char → Option (List Char)
  | '\n' :: rest => some rest
  | '\r' :: '\n' :: rest => some rest
  | _ => none

def skipComment : List Char → List Char
  | '#' :: rest => rest.dropWhile isShown
  | text => text

/-- The rest behind spaces, a comment and a line break, all of the line that may be left. -/
def lineEnd? (text : List Char) : Option (List Char) :=
  match skipComment (skipSpaces text) with
  | [] => some []
  | rest => newline? rest

def skipLayout : Nat → List Char → List Char
  | 0, text => text
  | fuel + 1, text =>
    let rest := skipComment (skipSpaces text)
    match newline? rest with
    | some rest => skipLayout fuel rest
    | none => rest

def codePoint? (count : Nat) (text : List Char) : Option (Char × List Char) := do
  let (n, rest) ← Text.hexDigits? count text
  if n.isValidChar then some (Char.ofNat n, rest) else none

def escape? : List Char → Option (Char × List Char)
  | 'b' :: rest => some ('\x08', rest)
  | 't' :: rest => some ('\t', rest)
  | 'n' :: rest => some ('\n', rest)
  | 'f' :: rest => some ('\x0c', rest)
  | 'r' :: rest => some ('\r', rest)
  | '"' :: rest => some ('"', rest)
  | '\\' :: rest => some ('\\', rest)
  | 'u' :: rest => codePoint? 4 rest
  | 'U' :: rest => codePoint? 8 rest
  | _ => none

def basicString? : Nat → List Char → List Char → Option (String × List Char)
  | 0, _, _ => none
  | _ + 1, _, [] => none
  | fuel + 1, acc, c :: rest =>
    if c = '"' then some (String.ofList acc.reverse, rest)
    else if c = '\\' then do
      let (escaped, rest) ← escape? rest
      basicString? fuel (escaped :: acc) rest
    else if isShown c then basicString? fuel (c :: acc) rest
    else none

def literalString? (text : List Char) : Option (String × List Char) :=
  let body := text.takeWhile fun c => isShown c && c != '\x27'
  match text.drop body.length with
  | '\x27' :: rest => some (String.ofList body, rest)
  | _ => none

/-- The spaces and line breaks that a backslash at the end of a line swallows. -/
def continued? (text : List Char) : Option (List Char) :=
  (newline? (skipSpaces text)).map fun rest =>
    go rest.length rest
where
  go : Nat → List Char → List Char
    | 0, text => text
    | fuel + 1, text =>
      match newline? (skipSpaces text) with
      | some rest => go fuel rest
      | none => skipSpaces text

/-- The rest of a string in triple quotes, `quote` being the quotation mark. Up to two quotes may
stand before the closing three; escapes count when `escapes` is set. -/
def multiline? (quote : Char) (escapes : Bool) :
    Nat → List Char → List Char → Option (String × List Char)
  | 0, _, _ => none
  | fuel + 1, acc, text =>
    let quotes := (text.takeWhile (· == quote)).length
    if quotes ≥ 3 then
      let closing := min quotes 5
      some (String.ofList (acc.reverse ++ List.replicate (closing - 3) quote), text.drop closing)
    else match newline? text, text with
      | some rest, _ => multiline? quote escapes fuel ('\n' :: acc) rest
      | none, [] => none
      | none, c :: rest =>
        if c = '\\' ∧ escapes then
          match continued? rest with
          | some rest => multiline? quote escapes fuel acc rest
          | none => do
            let (escaped, rest) ← escape? rest
            multiline? quote escapes fuel (escaped :: acc) rest
        else if isShown c then multiline? quote escapes fuel (c :: acc) rest
        else none

def string? (text : List Char) : Option (String × List Char) :=
  let opened := fun rest => (newline? rest).getD rest
  match text with
  | '"' :: '"' :: '"' :: rest => multiline? '"' true (rest.length + 1) [] (opened rest)
  | '\x27' :: '\x27' :: '\x27' :: rest => multiline? '\x27' false (rest.length + 1) [] (opened rest)
  | '"' :: rest => basicString? (rest.length + 1) [] rest
  | '\x27' :: rest => literalString? rest
  | _ => none

def isBareKey (c : Char) : Bool :=
  c.isAlphanum || c == '_' || c == '-'

def keyPart? (text : List Char) : Option (String × List Char) :=
  match text with
  | '"' :: rest => basicString? (rest.length + 1) [] rest
  | '\x27' :: rest => literalString? rest
  | _ =>
    let part := text.takeWhile isBareKey
    if part.isEmpty then none else some (String.ofList part, text.drop part.length)

private def keyTail? : Nat → List String → List Char → Option (List String × List Char)
  | 0, _, _ => none
  | fuel + 1, parts, text =>
    match skipSpaces text with
    | '.' :: rest => do
      let (part, rest) ← keyPart? (skipSpaces rest)
      keyTail? fuel (part :: parts) rest
    | rest => some (parts, rest)

def key? (text : List Char) : Option ((List String × String) × List Char) := do
  let (first, rest) ← keyPart? text
  let (parts, rest) ← keyTail? (rest.length + 1) [first] rest
  match parts with
  | last :: path => if parts.length < nestingBound then some ((path.reverse, last), rest) else none
  | [] => none

def isScalarChar (c : Char) : Bool :=
  c.isAlphanum || c == '+' || c == '-' || c == '_' || c == '.' || c == ':'

/-- A bare scalar. A date may be followed by one space and a time. -/
def bare? (text : List Char) : Option (Node × List Char) :=
  let token := text.takeWhile isScalarChar
  let rest := text.drop token.length
  let clock := (rest.drop 1).takeWhile isScalarChar
  if isDate token ∧ rest.take 1 = [' '] ∧ isZonedTime clock then
    some (.datetime (String.ofList (token ++ ' ' :: clock)), rest.drop (1 + clock.length))
  else (scalar? token).map (·, rest)

mutual

def value? (depth : Nat) : Nat → List Char → Option (Node × List Char)
  | 0, _ => none
  | fuel + 1, text =>
    match text with
    | '[' :: rest => if depth + 1 < nestingBound then items? (depth + 1) fuel [] rest else none
    | '\x7b' :: rest =>
      if depth + 1 < nestingBound then
        match skipSpaces rest with
        | '\x7d' :: rest => some (.inline [], rest)
        | rest => entries? (depth + 1) fuel .empty rest
      else none
    | '"' :: _ | '\x27' :: _ => (string? text).map fun (s, rest) => (.string s, rest)
    | _ => bare? text

def items? (depth : Nat) : Nat → List Node → List Char → Option (Node × List Char)
  | 0, _, _ => none
  | fuel + 1, items, text =>
    match skipLayout text.length text with
    | ']' :: rest => some (.array items.reverse, rest)
    | rest => do
      let (item, rest) ← value? depth fuel rest
      match skipLayout rest.length rest with
      | ',' :: rest => items? depth fuel (item :: items) rest
      | ']' :: rest => some (.array (item :: items).reverse, rest)
      | _ => none

def entries? (depth : Nat) : Nat → Node → List Char → Option (Node × List Char)
  | 0, _, _ => none
  | fuel + 1, table, text => do
    let ((path, last), rest) ← key? (skipSpaces text)
    let '=' :: rest := skipSpaces rest | none
    let (value, rest) ← value? depth fuel (skipSpaces rest)
    let table ← Node.insert path last value table
    match skipSpaces rest, table with
    | ',' :: rest, table => entries? depth fuel table rest
    | '\x7d' :: rest, .table _ _ entries => some (.inline entries, rest)
    | _, _ => none

end

/-- A bracketed header: whether it opens an element of an array, its key, and the rest. -/
def header? (text : List Char) : Option ((Bool × List String × String) × List Char) :=
  match text with
  | '[' :: '[' :: rest => do
    let (key, rest) ← key? (skipSpaces rest)
    match skipSpaces rest with
    | ']' :: ']' :: rest => some ((true, key), rest)
    | _ => none
  | '[' :: rest => do
    let (key, rest) ← key? (skipSpaces rest)
    match skipSpaces rest with
    | ']' :: rest => some ((false, key), rest)
    | _ => none
  | _ => none

def lines? : Nat → List String → Node → List Char → Option Node
  | 0, _, _, _ => none
  | fuel + 1, current, document, text =>
    match skipSpaces text with
    | [] => some document
    | '#' :: rest => do lines? fuel current document (← lineEnd? ('#' :: rest))
    | '[' :: rest => do
      let ((element, path, key), rest) ← header? ('[' :: rest)
      let document ← if element then document.openElement path key else document.openTable path key
      lines? fuel (path ++ [key]) document (← lineEnd? rest)
    | text =>
      match newline? text with
      | some rest => lines? fuel current document rest
      | none => do
        let ((path, key), rest) ← key? text
        let '=' :: rest := skipSpaces rest | none
        let (value, rest) ← value? 0 (2 * rest.length + 2) (skipSpaces rest)
        let document ← document.update false (Node.insert path key value) current
        lines? fuel current document (← lineEnd? rest)

/-- The document that the text denotes. A byte-order mark at its front is skipped. -/
def parse? (source : String) : Option Node :=
  let text := match source.toList with
    | '\ufeff' :: rest => rest
    | text => text
  lines? (text.length + 1) [] .empty text

end RubyRuntime.Toml
