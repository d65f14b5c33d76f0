/-!
# Native frames

Frames of the host's own stack, and how their lines are merged with the lines of a backtrace.
-/
namespace RubyRuntime

/-- One frame of the host's stack. A boundary is a place where the host calls into guest code. -/
structure NativeFrame where
  symbol : String
  file : Option String := none
  line : Option Nat := none
  boundary : Bool := false
  deriving DecidableEq, Repr

def NativeFrame.display (frame : NativeFrame) : String :=
  match frame.file, frame.line with
  | some file, some line => frame.symbol ++ " (" ++ file ++ ":" ++ toString line ++ ")"
  | some file, none => frame.symbol ++ " (" ++ file ++ ")"
  | _, _ => frame.symbol

def NativeFrame.nativeLine (frame : NativeFrame) : String :=
  "\t\t" ++ frame.display

/-- Walks the native frames; behind each boundary the next guest line is due. Guest lines that are
left over come at the end. -/
def mergeNative : List String → List NativeFrame → List String
  | lines, [] => lines
  | lines, frame :: rest =>
    match frame.boundary, lines with
    | true, line :: lines => frame.nativeLine :: line :: mergeNative lines rest
    | _, lines => frame.nativeLine :: mergeNative lines rest

def interleave (lines : List String) (native : List NativeFrame) : List String :=
  match lines with
  | [] => mergeNative [] native
  | first :: rest => first :: mergeNative rest native

end RubyRuntime
