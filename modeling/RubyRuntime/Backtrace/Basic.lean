import RubyRuntime.CallStack
import RubyRuntime.Error
import RubyRuntime.Backtrace.Native

/-!
# Backtraces

A backtrace is a captured call stack. Its activations are built from the raw frames at the first
read and kept from then on, so what is set later no longer changes them.
-/
namespace RubyRuntime

inductive Activation where
  | frame (callSite : Option SourceLocation) (name : String) (language : Language)
  | omittedLimit
  /-- Stands for a backtrace that nobody reads. -/
  | omittedUnused
  deriving DecidableEq, Repr

namespace Activation

def callSite : Activation → Option SourceLocation
  | frame callSite _ _ => callSite
  | _ => none

def isFrame : Activation → Bool
  | frame .. => true
  | _ => false

end Activation

structure Materialized where
  activations : List Activation
  total : Nat
  deriving DecidableEq, Repr

namespace Materialized

/-- Walks the frames innermost first, `seen` of which have been counted: ignored frames are passed
over, the first `omitted` others are only counted, and of the rest those are kept that are Ruby code
or have a location. -/
def collect (omitted : Nat) : Nat → List StackFrame → Materialized
  | seen, [] => ⟨[], seen⟩
  | seen, frame :: rest =>
    if frame.ignored then collect omitted seen rest
    else
      let walked := collect omitted (seen + 1) rest
      if seen + 1 ≤ omitted then walked
      else if frame.language == .ruby || frame.location.isSome then
        { walked with
          activations := .frame frame.location frame.name frame.language :: walked.activations }
      else walked

def trimUnlocated : List Activation → List Activation
  | [] => []
  | activation :: rest =>
    match trimUnlocated rest with
    | [] => if activation.callSite.isNone then [] else [activation]
    | kept => activation :: kept

def cut : Option Nat → List Activation → List Activation
  | none, activations => activations
  | some limit, activations =>
    if activations.length > limit then activations.take limit ++ [.omittedLimit] else activations

def ofFrames (frames : List StackFrame) (omitted : Nat) (limit : Option Nat) : Materialized :=
  let walked := collect omitted 0 frames
  ⟨cut limit (trimUnlocated walked.activations), walked.total⟩

end Materialized

structure Backtrace where
  frames : List StackFrame
  omitted : Nat := 0
  limit : Option Nat := none
  exception : Option Exception := none
  native : Option (List NativeFrame) := none
  cached : Option Materialized := none

namespace Backtrace

/-- A backtrace over raw frames, innermost first, without the innermost `omitted` shown ones. -/
def ofFrames (frames : List StackFrame) (omitted : Nat) : Backtrace :=
  { frames, omitted }

def unused : Backtrace :=
  { frames := [], cached := some ⟨[.omittedUnused], 0⟩ }

def withLimit (limit : Option Nat) (backtrace : Backtrace) : Backtrace :=
  { backtrace with limit }

def withException (exception : Option Exception) (backtrace : Backtrace) : Backtrace :=
  { backtrace with exception }

def withNative (native : List NativeFrame) (backtrace : Backtrace) : Backtrace :=
  { backtrace with native := some native }

/-- What a read sees: the activations of the first read, else those of the present limit. -/
def content (backtrace : Backtrace) : Materialized :=
  backtrace.cached.getD
    (Materialized.ofFrames backtrace.frames backtrace.omitted backtrace.limit)

def force (backtrace : Backtrace) : Backtrace :=
  { backtrace with cached := some backtrace.content }

def eager (backtrace : Backtrace) : Backtrace :=
  { backtrace.force with frames := [] }

def isMaterialized (backtrace : Backtrace) : Bool :=
  backtrace.cached.isSome

def activations (backtrace : Backtrace) : List Activation :=
  backtrace.content.activations

def total (backtrace : Backtrace) : Nat :=
  backtrace.content.total

end Backtrace

end RubyRuntime
