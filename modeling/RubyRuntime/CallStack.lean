/-!
# Call stacks

The frames that a thread has entered and not left, innermost first. A frame is popped by cutting the
stack back to the depth it was pushed at, so frames that an abandoned callee left behind go with it.
-/
namespace RubyRuntime

def coreFilePrefix : String := "<internal:"

inductive Language where
  | ruby
  | foreign
  | internal
  deriving DecidableEq, Repr

structure SourceLocation where
  path : String
  line : Nat
  deriving DecidableEq, Repr

def SourceLocation.isCore (location : SourceLocation) : Bool :=
  coreFilePrefix.toList.isPrefixOf location.path.toList

def SourceLocation.display (location : SourceLocation) : String :=
  location.path ++ ":" ++ toString location.line

/-- One recorded frame: the method or block it runs, and where it is, if known. Ignored frames never
show up in backtraces. -/
structure StackFrame where
  name : String
  language : Language
  ignored : Bool
  location : Option SourceLocation
  deriving DecidableEq, Repr

structure CallStack where
  frames : List StackFrame := []
  deriving DecidableEq, Repr

namespace CallStack

def depth (stack : CallStack) : Nat :=
  stack.frames.length

def push (frame : StackFrame) (stack : CallStack) : CallStack :=
  ⟨frame :: stack.frames⟩

/-- Cuts the stack back to its outermost `depth` frames; a stack that is not deeper stays. -/
def truncate (depth : Nat) (stack : CallStack) : CallStack :=
  ⟨stack.frames.drop (stack.frames.length - depth)⟩

def setLocation (location : SourceLocation) (stack : CallStack) : CallStack :=
  match stack.frames with
  | [] => stack
  | top :: rest => ⟨{ top with location := some location } :: rest⟩

end CallStack

end RubyRuntime
