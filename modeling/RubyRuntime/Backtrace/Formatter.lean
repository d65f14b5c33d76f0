import RubyRuntime.Backtrace.Location
import RubyRuntime.Options

/-!
# Rendering backtraces

One line per activation, the exception behind the first. A line that cannot be formatted, because
resolving its path raised or panicked, is replaced by a placeholder, so rendering never fails.
-/
namespace RubyRuntime

inductive LineFailure where
  | error (e : Error)
  | panic (text : String)
  deriving DecidableEq, Repr

abbrev PathResolver := SourceLocation → Except LineFailure String

def PathResolver.own : PathResolver := fun location => .ok location.path

structure FormattingFlags where
  omitException : Bool := false
  omitFrom : Bool := false
  includeCore : Bool := false
  interleaveNative : Bool := false
  deriving DecidableEq, Repr

structure Formatter where
  flags : FormattingFlags := {}
  resolve : PathResolver := PathResolver.own

/-- The exception text of a first line. The class stands behind the first line of the message, and
alone when the message is empty. -/
def Exception.format (e : Exception) : String :=
  if e.message.isEmpty then e.className
  else
    let first := e.message.toList.takeWhile (· ≠ '\n')
    let rest := e.message.toList.dropWhile (· ≠ '\n')
    String.ofList first ++ " (" ++ e.className ++ ")" ++ String.ofList rest

def LineFailure.placeholder (failure : LineFailure) : String :=
  let (className, message) := match failure with
    | error e => (e.className, e.message)
    | panic text => ("fatal", text)
  "(exception " ++ className ++ " " ++ message ++ " while formatting frame)"

namespace Formatter

def ofOptions (options : Options) : Formatter :=
  { flags :=
      { includeCore := !options.hideCoreFiles, interleaveNative := options.interleaveNative } }

private def inside (name : String) : String :=
  ":in '" ++ name ++ "'"

def rubyFrame (formatter : Formatter) (activations : List Activation) (name : String) :
    Except LineFailure String :=
  match Activation.reportedLocation formatter.flags.includeCore activations with
  | some location => do
    let path ← formatter.resolve location
    pure (path ++ ":" ++ toString location.line ++ inside name)
  | none => pure (unknownSource ++ inside name)

/-- The text of a frame that is not Ruby code, which always shows its own call site. -/
def foreignFrame (formatter : Formatter) (callSite : Option SourceLocation) (name : String) :
    Except LineFailure String :=
  match callSite with
  | none => pure (if name.isEmpty then unknownSource else name)
  | some location => do
    let path ← formatter.resolve location
    pure (path ++ ":" ++ toString location.line ++ if name.isEmpty then "" else inside name)

/-- The line of the activation at the front of `activations`, which is the first line of the
backtrace when `isFirst` is set. Markers stand alone. -/
def line (formatter : Formatter) (isFirst : Bool) (exception : Option Exception)
    (activations : List Activation) : Except LineFailure String :=
  match activations with
  | .frame callSite name language :: _ => do
    let text ← match language with
      | .ruby => formatter.rubyFrame activations name
      | .foreign | .internal => formatter.foreignFrame callSite name
    let lead := if formatter.flags.omitFrom || isFirst then "" else "\tfrom "
    let behind := match exception with
      | some e => if formatter.flags.omitException || !isFirst then "" else ": " ++ e.format
      | none => ""
    pure (lead ++ text ++ behind)
  | .omittedUnused :: _ => pure "(omitted as the rescue expression was pure)"
  | _ => pure "(omitted due to backtraces limit)"

def lineAt (formatter : Formatter) (activations : List Activation) (n : Nat)
    (exception : Option Exception) : Except LineFailure String :=
  formatter.line (n == 0) exception (activations.drop n)

def shown : Except LineFailure String → String
  | .ok text => text
  | .error failure => failure.placeholder

def lines (formatter : Formatter) (exception : Option Exception) :
    Bool → List Activation → List String
  | _, [] => []
  | isFirst, activation :: rest =>
    shown (formatter.line isFirst exception (activation :: rest)) ::
      lines formatter exception false rest

/-- All lines of a backtrace. Without activations the exception is the only line, if it is shown. -/
def format (formatter : Formatter) (exception : Option Exception) (backtrace : Backtrace) :
    List String :=
  let activations := backtrace.activations
  match exception, activations.isEmpty && !formatter.flags.omitException with
  | some e, true => [e.format]
  | _, _ =>
    let lines := formatter.lines exception true activations
    match backtrace.native, formatter.flags.interleaveNative with
    | some native, true => interleave lines native
    | _, _ => lines

def formatStack (formatter : Formatter) (exception : Option Exception) (stack : CallStack) :
    List String :=
  formatter.format exception (Backtrace.ofFrames stack.frames 0)

end Formatter

def CallStack.printable (stack : CallStack) : String :=
  let formatter : Formatter := { flags := { includeCore := true } }
  match formatter.formatStack none stack with
  | [] => "<empty backtrace>"
  | lines => "\n".intercalate lines

end RubyRuntime
