import RubyRuntime.Session.World

/-!
# Steps on call stacks and backtraces
-/
namespace RubyRuntime.Session

def languageText : Language → String
  | .ruby => "ruby"
  | .foreign => "foreign"
  | .internal => "internal"

def reportSite (location : Option SourceLocation) : Report :=
  .textOrNull (location.map SourceLocation.display)

def reportFrame (frame : StackFrame) : Report :=
  .record [("n", .text frame.name), ("l", .text (languageText frame.language)),
    ("i", .bool frame.ignored), ("at", reportSite frame.location),
    ("core", match frame.location with
      | some location => .bool location.isCore
      | none => .null)]

def reportActivation : Activation → Report
  | .frame callSite name language =>
    .record [("n", .text name), ("l", .text (languageText language)), ("at", reportSite callSite)]
  | .omittedLimit => .text "OmittedLimit"
  | .omittedUnused => .text "OmittedUnused"

def reportLocation (location : Location) : Report :=
  .record [("path", .text location.path), ("lineno", .nat location.line),
    ("label", .text location.label), ("to_s", .text location.display)]

def reportException : Option Exception → Report
  | some e => .record [("class", .text e.className), ("message", .text e.message)]
  | none => .null

def reportLine : Except LineFailure String → Except String Report
  | .ok text => .ok (.text text)
  | .error (.error e) => .ok (.record [("error", .text e.className), ("message", .text e.message)])
  | .error (.panic text) => .error text

def reportLines (formatter : Formatter) (exception : Option Exception)
    (activations : List Activation) : Except String Report := do
  let lines ← (List.range activations.length).mapM fun n =>
    reportLine (formatter.lineAt activations n exception)
  pure (.list lines)

namespace Question

def isRead : Question → Bool
  | materialized | omitted | exception | native => false
  | total | activations | allLocations | locations _ | format _ _ _ | line _ _ _ => true

/-- The answer to a question, or the text of a panic. `base` formats a whole backtrace that asks for
no formatter of its own. -/
def answer (base : Formatter) (backtrace : Backtrace) : Question → Except String Report
  | materialized => pure (.bool backtrace.isMaterialized)
  | total => pure (.nat backtrace.total)
  | omitted => pure (.nat backtrace.omitted)
  | exception => pure (reportException backtrace.exception)
  | native =>
    pure (match backtrace.native with
      | some frames => .texts (frames.map NativeFrame.display)
      | none => .null)
  | activations => pure (.list (backtrace.activations.map reportActivation))
  | allLocations => pure (.list (backtrace.locations.map reportLocation))
  | locations length =>
    pure (match backtrace.locations? length with
      | some found => .texts (found.map Location.display)
      | none => .null)
  | format spec given ownException =>
    let shown := given.or (if ownException then backtrace.exception else none)
    pure (.texts ((spec.formatter base).format shown backtrace))
  | line n spec given =>
    reportLine ((spec.formatter {}).lineAt backtrace.activations n given)

end Question

def askAll (base : Formatter) (backtrace : Backtrace) :
    List Question → Except String (List Report) × Backtrace
  | [] => (.ok [], backtrace)
  | question :: rest =>
    let answer := question.answer base backtrace
    let backtrace := if question.isRead then backtrace.force else backtrace
    match answer with
    | .ok answer =>
      let (answers, backtrace) := askAll base backtrace rest
      (answers.map (answer :: ·), backtrace)
    | .error text => (.error text, backtrace)

/-- The backtrace of a thread for the runtime's options. A rescue that never looks at the exception
gets the placeholder when the options say so. -/
def World.backtrace (w : World) (t : ThreadId) (omitted : Nat) (pureRescue : Bool) : Backtrace :=
  if pureRescue && w.options.omitUnused then .unused
  else (Backtrace.ofFrames (w.thread t).stack.frames omitted).withLimit w.options.backtraceLimit

def StackOp.perform (w : World) : StackOp → Reply
  | .setLocation name location =>
    let (t, w) := w.threadNamed name
    (w.updateThread t fun thread =>
      { thread with stack := thread.stack.setLocation location }).reply .null
  | .stack name =>
    let (t, w) := w.threadNamed name
    w.reply (.list ((w.thread t).stack.frames.map reportFrame))
  | .capture name bt omitted pureRescue build =>
    let (t, w) := w.threadNamed name
    let backtrace := build.foldl Build.apply (w.backtrace t omitted (pureRescue.getD false))
    { w with backtraces := setNamed bt backtrace w.backtraces }.reply .null
  | .ask bt questions =>
    match w.backtraces.lookup bt with
    | some backtrace =>
      let (answers, backtrace) := askAll (Formatter.ofOptions w.options) backtrace questions
      let w := { w with backtraces := setNamed bt backtrace w.backtraces }
      match answers with
      | .ok answers => w.reply (.list answers)
      | .error text => w.panics text
    | none => w.panics ("no backtrace " ++ bt)
  | .formatCurrent name spec exception =>
    let (t, w) := w.threadNamed name
    let formatter := spec.formatter {}
    w.reply (.texts (formatter.formatStack exception (w.thread t).stack))
  | .printable name =>
    let (t, w) := w.threadNamed name
    w.reply (.text (w.thread t).stack.printable)
  | .runtimeInfo =>
    let flags := (Formatter.ofOptions w.options).flags
    w.reply (.record [
      ("flags", .list [.bool flags.omitException, .bool flags.omitFrom, .bool flags.includeCore,
        .bool flags.interleaveNative]),
      ("limit", match w.options.backtraceLimit with
        | some limit => .nat limit
        | none => .null)])

end RubyRuntime.Session
