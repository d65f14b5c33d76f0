import RubyRuntime.FileTree
import RubyRuntime.Text.Blank
import RubyRuntime.Text.Numeral
import RubyRuntime.Text.Quoted
import RubyRuntime.Toml.Reader

/-!
# Runtime options

Options start from built-in defaults, may be read from a configuration document, and may then be
overridden variable by variable. A poll interval of zero is refused after each of the two stages.
-/
namespace RubyRuntime

structure Options where
  pollInterval : Nat := 10
  backtraceLimit : Option Nat := none
  hideCoreFiles : Bool := true
  interleaveNative : Bool := false
  omitUnused : Bool := true
  deriving DecidableEq, Repr

inductive OptionsError where
  | unreadable (path : String) (failure : ReadFailure)
  | malformed
  | invalidOverride (key value : String)
  | zeroPollInterval
  deriving DecidableEq, Repr

def OptionsError.message : OptionsError → String
  | unreadable path failure => "failed to read options file " ++ path ++ ": " ++ failure.message
  | malformed => "invalid options"
  | invalidOverride key value => "invalid value " ++ Text.quote value ++ " for " ++ key
  | zeroPollInterval => "blocking_poll_interval_ms must be at least 1"

namespace Options

def validate (options : Options) : Except OptionsError Options :=
  if options.pollInterval = 0 then .error .zeroPollInterval else .ok options

private def entryOr {α : Type} (document : Toml.Node) (key : String) (default : α)
    (read : Toml.Node → Option α) : Option α :=
  match document.entry? key with
  | none => some default
  | some node => read node

private def natural? : Toml.Node → Option Nat
  | .integer n => if 0 ≤ n then some n.toNat else none
  | _ => none

private def boolean? : Toml.Node → Option Bool
  | .boolean b => some b
  | _ => none

/-- The options that a document gives; keys it does not know are ignored. -/
def ofDocument? (document : Toml.Node) : Option Options := do
  let defaults : Options := {}
  let pollInterval ←
    entryOr document "blocking_poll_interval_ms" defaults.pollInterval natural?
  let backtraceLimit ←
    entryOr document "backtraces_limit" defaults.backtraceLimit fun n => (natural? n).map some
  let hideCoreFiles ←
    entryOr document "backtraces_hide_core_files" defaults.hideCoreFiles boolean?
  let interleaveNative ←
    entryOr document "backtraces_interleave_native" defaults.interleaveNative boolean?
  let omitUnused ← entryOr document "backtraces_omit_unused" defaults.omitUnused boolean?
  pure { pollInterval, backtraceLimit, hideCoreFiles, interleaveNative, omitUnused }

def ofText (source : String) : Except OptionsError Options :=
  match (Toml.parse? source).bind ofDocument? with
  | some options => options.validate
  | none => .error .malformed

def ofFile (path : String) (content : Except ReadFailure String) : Except OptionsError Options :=
  match content with
  | .ok source => ofText source
  | .error failure => .error (.unreadable path failure)

private def override {α : Type} (lookup : String → Option String) (key : String)
    (read : String → Option α) (apply : α → Options → Options) (options : Options) :
    Except OptionsError Options :=
  match lookup key with
  | none => .ok options
  | some value =>
    match read (Text.trim value) with
    | some read => .ok (apply read options)
    | none => .error (.invalidOverride key value)

/-- Applies the variables in a fixed order; the first one with an unreadable value is reported. -/
def withOverrides (options : Options) (lookup : String → Option String) :
    Except OptionsError Options := do
  let word := Text.unsigned? (Nat.pow 2 64)
  let options ← override lookup "GARNET_BLOCKING_POLL_INTERVAL_MS" word
    (fun n options => { options with pollInterval := n }) options
  let options ← override lookup "GARNET_BACKTRACES_LIMIT" word
    (fun n options => { options with backtraceLimit := some n }) options
  let options ← override lookup "GARNET_BACKTRACES_HIDE_CORE_FILES" Text.truth?
    (fun b options => { options with hideCoreFiles := b }) options
  let options ← override lookup "GARNET_BACKTRACES_INTERLEAVE_NATIVE" Text.truth?
    (fun b options => { options with interleaveNative := b }) options
  let options ← override lookup "GARNET_BACKTRACES_OMIT_UNUSED" Text.truth?
    (fun b options => { options with omitUnused := b }) options
  options.validate

end Options

end RubyRuntime
