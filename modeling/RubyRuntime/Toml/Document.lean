/-!
# Configuration documents

A document is a tree of tables. A table remembers whether it only came into being as a parent of
another one (`implicit`) and whether a dotted key made it (`dotted`): these two decide which later
headers and keys may still extend it. A table written inline is closed.
-/
namespace RubyRuntime.Toml

inductive Node where
  | integer (n : Int)
  | boolean (b : Bool)
  | string (text : String)
  | float (text : String)
  | datetime (text : String)
  | array (items : List Node)
  | inline (entries : List (String × Node))
  | table (implicit dotted : Bool) (entries : List (String × Node))
  | tables (elements : List Node)

def setEntry (key : String) (node : Node) : List (String × Node) → List (String × Node)
  | [] => [(key, node)]
  | (k, old) :: rest => if k = key then (k, node) :: rest else (k, old) :: setEntry key node rest

def updateLast (f : Node → Option Node) : List Node → Option (List Node)
  | [] => none
  | [last] => (f last).map fun last => [last]
  | first :: rest => (updateLast f rest).map (first :: ·)

namespace Node

def empty : Node := table false false []

/-- Applies `f` to the table at the end of `path`, making implicit tables where the path leaves the
document. A dotted path enters implicit tables only; an array of tables is entered at its end. -/
def update (dotted : Bool) (f : Node → Option Node) : List String → Node → Option Node
  | [], node => f node
  | key :: path, table implicit wasDotted entries => do
    let child ← match entries.lookup key with
      | none => update dotted f path (table true dotted [])
      | some (table childImplicit childDotted childEntries) =>
        if dotted && !childImplicit then none
        else update dotted f path (table childImplicit childDotted childEntries)
      | some (tables elements) => (updateLast (update dotted f path) elements).map tables
      | some _ => none
    pure (table implicit wasDotted (setEntry key child entries))
  | _ :: _, _ => none

/-- Adds `key` to the table that a key path ends in. The last table of a dotted path has to be one
that dotted keys made, and no key is given twice. -/
def insert (path : List String) (key : String) (value : Node) : Node → Option Node :=
  update true (fun
    | table implicit dotted entries =>
      if dotted == path.isEmpty then none
      else match entries.lookup key with
        | none => some (table implicit dotted (entries ++ [(key, value)]))
        | some _ => none
    | _ => none) path

/-- Opens the table of a header. A table that only came into being as a parent may be opened once.
-/
def openTable (path : List String) (key : String) : Node → Option Node :=
  update false (fun
    | table implicit dotted entries =>
      match entries.lookup key with
      | none => some (table implicit dotted (entries ++ [(key, table false false [])]))
      | some (table true false children) =>
        some (table implicit dotted (setEntry key (table false false children) entries))
      | some _ => none
    | _ => none) path

def openElement (path : List String) (key : String) : Node → Option Node :=
  update false (fun
    | table implicit dotted entries =>
      match entries.lookup key with
      | none => some (table implicit dotted (entries ++ [(key, tables [table false false []])]))
      | some (tables elements) =>
        some (table implicit dotted
          (setEntry key (tables (elements ++ [table false false []])) entries))
      | some _ => none
    | _ => none) path

def entry? (key : String) : Node → Option Node
  | table _ _ entries => entries.lookup key
  | inline entries => entries.lookup key
  | _ => none

end Node

end RubyRuntime.Toml
