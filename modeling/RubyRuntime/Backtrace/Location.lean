import RubyRuntime.Backtrace.Basic

/-!
# Locations

The location shown for a Ruby frame is its own call site, unless that is unknown or hidden inside
the core library: then the next user location outward stands in, if there is one.
-/
namespace RubyRuntime

def unknownSource : String := "???"

/-- A location as guest code sees it; the line is 0 when it is not known. -/
structure Location where
  path : String
  line : Nat
  label : String
  deriving DecidableEq, Repr

def Location.display (location : Location) : String :=
  if location.line = 0 then location.path ++ ":in '" ++ location.label ++ "'"
  else location.path ++ ":" ++ toString location.line ++ ":in '" ++ location.label ++ "'"

namespace Activation

def nextUserLocation (activations : List Activation) : Option SourceLocation :=
  (activations.filterMap callSite).find? (!·.isCore)

def reportedLocation (includeCore : Bool) (activations : List Activation) :
    Option SourceLocation :=
  let own := activations.head?.bind callSite
  let hidden := match own with
    | none => true
    | some location => location.isCore && !includeCore
  if hidden then (nextUserLocation activations).or own else own

def location? (activations : List Activation) : Option Location :=
  match activations with
  | .frame callSite name language :: _ =>
    let reported := match language with
      | .ruby => reportedLocation false activations
      | .foreign | .internal => callSite
    some ⟨(reported.map (·.path)).getD unknownSource, (reported.map (·.line)).getD 0, name⟩
  | _ => none

def locations : List Activation → List Location
  | [] => []
  | activation :: rest =>
    match location? (activation :: rest) with
    | some location => location :: locations rest
    | none => locations rest

end Activation

namespace Backtrace

/-- How many of `available` frames a requested length stands for: all without a length, at most that
many for a natural number, and all but the last `-length - 1` for a negative one. -/
def lengthOf (available : Nat) : Option Int → Nat
  | none => available
  | some length => if length < 0 then ((available : Int) + 1 + length).toNat
    else min length.toNat available

/-- The locations of the innermost frames, none when more frames were to be omitted than there
were. -/
def locations? (backtrace : Backtrace) (length : Option Int) : Option (List Location) :=
  if backtrace.omitted > backtrace.total then none
  else
    let available := (backtrace.activations.filter Activation.isFrame).length
    some ((Activation.locations backtrace.activations).take (lengthOf available length))

def locations (backtrace : Backtrace) : List Location :=
  (backtrace.locations? none).getD []

end Backtrace

end RubyRuntime
