import Mathlib.Logic.Function.Basic
import RubyRuntime.Proofs.Backtrace.Locations

/-!
# What the lines of a backtrace depend on

A line is made from its own activation and from those outward of it, but of the latter it uses one
location only, `Activation.reported`. Two results follow. A path that cannot be resolved spoils the
lines that report its location and no others. And a frame's line and the text of its location are
the same, but for frames on line 0 and for nameless frames of other languages.
-/
namespace RubyRuntime

namespace Activation

/-- The location that the frame at the front reports. A Ruby frame may show one from further out,
any other frame shows its own. -/
def reported (includeCore : Bool) (activations : List Activation) : Option SourceLocation :=
  match activations with
  | .frame _ _ .ruby :: _ => reportedLocation includeCore activations
  | activation :: _ => activation.callSite
  | [] => none

theorem location?_frame (callSite : Option SourceLocation) (name : String) (language : Language)
    (rest : List Activation) :
    location? (.frame callSite name language :: rest) =
      let shown := reported false (.frame callSite name language :: rest)
      some ⟨(shown.map (·.path)).getD unknownSource, (shown.map (·.line)).getD 0, name⟩ := by
  cases language <;> rfl

end Activation

open Activation

namespace Formatter

def frameText (formatter : Formatter) (language : Language) (name : String) :
    Option SourceLocation → Except LineFailure String
  | some location => (formatter.resolve location).map fun path =>
      path ++ ":" ++ toString location.line ++
        if language ≠ .ruby ∧ name.isEmpty then "" else ":in '" ++ name ++ "'"
  | none => .ok <|
      if language = .ruby then unknownSource ++ (":in '" ++ name ++ "'")
      else if name.isEmpty then unknownSource else name

def lead (formatter : Formatter) (isFirst : Bool) : String :=
  if formatter.flags.omitFrom || isFirst then "" else "\tfrom "

def behind (formatter : Formatter) (isFirst : Bool) (exception : Option Exception) : String :=
  match exception with
  | some e => if formatter.flags.omitException || !isFirst then "" else ": " ++ e.format
  | none => ""

theorem rubyFrame_eq (formatter : Formatter) (activations : List Activation) (name : String) :
    formatter.rubyFrame activations name =
      formatter.frameText .ruby name
        (reportedLocation formatter.flags.includeCore activations) := by
  rw [rubyFrame]
  cases reportedLocation formatter.flags.includeCore activations with
  | none => rfl
  | some location =>
      simp only [frameText]
      cases formatter.resolve location <;> rfl

theorem foreignFrame_eq (formatter : Formatter) (callSite : Option SourceLocation) (name : String)
    {language : Language} (h : language ≠ .ruby) :
    formatter.foreignFrame callSite name = formatter.frameText language name callSite := by
  cases callSite with
  | none =>
      simp only [foreignFrame, frameText, if_neg h]
      rfl
  | some location =>
      simp only [foreignFrame, frameText, ne_eq, h, not_false_eq_true, true_and]
      cases formatter.resolve location <;> rfl

theorem line_frame (formatter : Formatter) (isFirst : Bool) (exception : Option Exception)
    (callSite : Option SourceLocation) (name : String) (language : Language)
    (rest : List Activation) :
    formatter.line isFirst exception (.frame callSite name language :: rest) =
      (formatter.frameText language name
        (reported formatter.flags.includeCore (.frame callSite name language :: rest))).map
          fun text => formatter.lead isFirst ++ text ++ formatter.behind isFirst exception := by
  cases language with
  | ruby =>
      simp only [line, rubyFrame_eq, reported]
      cases formatter.frameText .ruby name _ <;> rfl
  | foreign =>
      have hforeign : Language.foreign ≠ .ruby := by decide
      simp only [line, formatter.foreignFrame_eq callSite name hforeign, reported,
        Activation.callSite]
      cases formatter.frameText .foreign name callSite <;> rfl
  | internal =>
      have hinternal : Language.internal ≠ .ruby := by decide
      simp only [line, formatter.foreignFrame_eq callSite name hinternal, reported,
        Activation.callSite]
      cases formatter.frameText .internal name callSite <;> rfl

/-- A line does not change with what the resolver does on locations that it does not report. -/
theorem line_resolve {formatter : Formatter} {resolve : PathResolver}
    {activations : List Activation}
    (h : ∀ location, reported formatter.flags.includeCore activations = some location →
      resolve location = formatter.resolve location)
    (isFirst : Bool) (exception : Option Exception) :
    { formatter with resolve }.line isFirst exception activations =
      formatter.line isFirst exception activations := by
  match activations with
  | [] | .omittedLimit :: _ | .omittedUnused :: _ => rfl
  | .frame callSite name language :: rest =>
      simp only [line_frame]
      cases hreported : reported formatter.flags.includeCore
          (.frame callSite name language :: rest) with
      | none => rfl
      | some location =>
          simp only [frameText, h location hreported]
          rfl

theorem lines_eq (formatter : Formatter) (exception : Option Exception) (isFirst : Bool)
    (activations : List Activation) :
    formatter.lines exception isFirst activations =
      (List.range activations.length).map fun n =>
        shown (formatter.line (isFirst && n == 0) exception (activations.drop n)) := by
  induction activations generalizing isFirst with
  | nil => rfl
  | cons activation rest ih =>
      rw [lines, ih, List.length_cons, List.range_succ_eq_map, List.map_cons, List.map_map]
      simp [Function.comp_def]

theorem getElem?_lines (formatter : Formatter) (exception : Option Exception)
    (activations : List Activation) (n : Nat) :
    (formatter.lines exception true activations)[n]? =
      if n < activations.length then some (shown (formatter.lineAt activations n exception))
      else none := by
  rw [lines_eq, List.getElem?_map]
  split
  · next h => simp [List.getElem?_range h, lineAt]
  · next h => simp [h]

def interleaves (formatter : Formatter) (backtrace : Backtrace) : Bool :=
  formatter.flags.interleaveNative && backtrace.native.isSome

theorem format_empty {formatter : Formatter} {backtrace : Backtrace}
    (hempty : backtrace.activations = []) (hshown : formatter.flags.omitException = false)
    (e : Exception) : formatter.format (some e) backtrace = [e.format] := by
  simp [format, hempty, hshown]

theorem format_eq_lines {formatter : Formatter} {backtrace : Backtrace}
    (hplain : formatter.interleaves backtrace = false) {exception : Option Exception}
    (hlines : backtrace.activations = [] → exception = none ∨ formatter.flags.omitException) :
    formatter.format exception backtrace =
      formatter.lines exception true backtrace.activations := by
  simp only [format]
  split
  · next e halone =>
      simp only [Bool.and_eq_true, List.isEmpty_iff, Bool.not_eq_true'] at halone
      have hno := hlines halone.1
      simp [halone.2] at hno
  · split
    · next native hnative hflag => simp [interleaves, hnative, hflag] at hplain
    · rfl

theorem getElem?_format_resolve {formatter : Formatter} {resolve : PathResolver}
    {backtrace : Backtrace} (hplain : formatter.interleaves backtrace = false) {n : Nat}
    (h : ∀ location,
      reported formatter.flags.includeCore (backtrace.activations.drop n) = some location →
        resolve location = formatter.resolve location)
    (exception : Option Exception) :
    (Formatter.format { formatter with resolve } exception backtrace)[n]? =
      (formatter.format exception backtrace)[n]? := by
  let other : Formatter := { formatter with resolve }
  have hother : other.interleaves backtrace = false := hplain
  by_cases hlines : backtrace.activations = [] → exception = none ∨ formatter.flags.omitException
  · rw [format_eq_lines hother hlines, format_eq_lines hplain hlines, getElem?_lines,
      getElem?_lines, lineAt, lineAt, line_resolve h]
  · -- The exception stands alone and no path is resolved.
    simp only [Classical.not_imp, not_or, Bool.not_eq_true] at hlines
    obtain ⟨hempty, hgiven, hshown⟩ := hlines
    obtain ⟨e, rfl⟩ := Option.ne_none_iff_exists'.mp hgiven
    have hothershown : other.flags.omitException = false := hshown
    rw [format_empty hempty hothershown, format_empty hempty hshown]

/-- Formatting a backtrace always answers, whatever the resolver does. Without frames of the host
there is one line for each activation, or the exception alone where there is no activation to put it
behind; a line that fails is replaced by a placeholder with the class and the text of its own
failure. So what the resolver does on one location shows in no line but those that report it. -/
theorem failures_stay_in_their_lines (formatter : Formatter) (exception : Option Exception)
    (backtrace : Backtrace) :
    let activations := backtrace.activations
    let lines := formatter.format exception backtrace
    (Session.Question.format ⟨none, none⟩ exception false).answer formatter backtrace =
        .ok (.texts lines) ∧
      (formatter.interleaves backtrace = false →
        (∀ e, exception = some e → activations = [] → formatter.flags.omitException = false →
          lines = [e.format]) ∧
        ((activations = [] → exception = none ∨ formatter.flags.omitException) →
          lines.length = activations.length ∧
          ∀ n < activations.length, lines[n]? = some
            (match formatter.lineAt activations n exception with
            | .ok text => text
            | .error (.error e) =>
              "(exception " ++ e.className ++ " " ++ e.message ++ " while formatting frame)"
            | .error (.panic text) =>
              "(exception " ++ "fatal" ++ " " ++ text ++ " while formatting frame)")) ∧
        ∀ location outcome n,
          reported formatter.flags.includeCore (activations.drop n) ≠ some location →
          (Formatter.format { formatter with
            resolve := Function.update formatter.resolve location outcome } exception
              backtrace)[n]? = lines[n]?) := by
  intro activations lines
  refine ⟨?_, fun hplain => ⟨?_, ?_, ?_⟩⟩
  · simp only [Session.Question.answer, Session.FormatSpec.formatter, Option.or_none,
      Bool.false_eq_true, if_false]
    rfl
  · rintro e rfl hempty hshown
    exact format_empty hempty hshown e
  · intro hlines
    have heq : lines = formatter.lines exception true activations := format_eq_lines hplain hlines
    rw [heq]
    constructor
    · simp [lines_eq]
    · intro n hn
      rw [getElem?_lines, if_pos hn]
      rcases formatter.lineAt activations n exception with (e | text) | text <;> rfl
  · intro location outcome n hreported
    apply getElem?_format_resolve hplain
    intro other hother
    apply Function.update_of_ne
    rintro rfl
    exact hreported hother

private def brokenPaths : PathResolver := fun location =>
  if location.path = "ext.so" then .error (.error (.raised ⟨"Errno::ENOENT", "No such file"⟩))
  else if location.line = 9 then .error (.panic "resolver exploded")
  else .ok location.path

private def throughExtension : Backtrace := Backtrace.ofFrames [
  ⟨"each", .ruby, false, some ⟨"<internal:core> array.rb", 4⟩⟩,
  ⟨"load", .ruby, false, some ⟨"ext.so", 1⟩⟩, ⟨"glue", .foreign, false, some ⟨"glue.c", 9⟩⟩,
  ⟨"<main>", .ruby, false, some ⟨"app.rb", 3⟩⟩] 0

theorem failures_stay_in_their_lines_brokenPaths :
    let formatter : Formatter := { resolve := brokenPaths }
    let exception := some ⟨"IOError", "x"⟩
    let lines := formatter.format exception throughExtension
    let mended : Formatter :=
      { resolve := Function.update brokenPaths ⟨"ext.so", 1⟩ (.ok "ext.rb") }
    formatter.interleaves throughExtension = false ∧ lines.length = 4 ∧
      lines[0]? = some "(exception Errno::ENOENT No such file while formatting frame)" ∧
      lines[1]? = some "(exception Errno::ENOENT No such file while formatting frame)" ∧
      lines[2]? = some "(exception fatal resolver exploded while formatting frame)" ∧
      (mended.format exception throughExtension)[0]? = some "ext.rb:1:in 'each': x (IOError)" ∧
      (mended.format exception throughExtension)[2]? = lines[2]? ∧
      (mended.format exception throughExtension)[3]? = some "\tfrom app.rb:3:in '<main>'" ∧
      formatter.format exception (Backtrace.ofFrames [] 0) = ["x (IOError)"] := by
  intro formatter exception lines mended
  obtain ⟨-, hplain⟩ := failures_stay_in_their_lines formatter exception throughExtension
  obtain ⟨-, hlines, hmended⟩ := hplain rfl
  obtain ⟨hlength, hline⟩ := hlines (by decide)
  obtain ⟨-, hshown⟩ := failures_stay_in_their_lines mended exception throughExtension
  have hfirst := ((hshown rfl).2.1 (by decide)).2 0 (by decide)
  obtain ⟨-, hempty⟩ := failures_stay_in_their_lines formatter exception (Backtrace.ofFrames [] 0)
  have halone := (hempty rfl).1 ⟨"IOError", "x"⟩ rfl (by decide) rfl
  refine ⟨rfl, hlength, (hline 0 (by decide)).trans ?_, (hline 1 (by decide)).trans ?_,
    (hline 2 (by decide)).trans ?_, hfirst.trans ?_, ?_, ?_, halone.trans ?_⟩
  · decide
  · decide
  · decide
  · decide
  · exact hmended ⟨"ext.so", 1⟩ (.ok "ext.rb") 2 (by decide)
  · rw [hmended ⟨"ext.so", 1⟩ (.ok "ext.rb") 3 (by decide), hline 3 (by decide)]
    decide
  · decide

end Formatter

namespace Materialized

theorem pipeline_eq_cut (frames : List StackFrame) (omitted : Nat) (limit : Option Nat) :
    pipeline frames omitted limit = cut limit (pipeline frames omitted none) := by
  cases limit with
  | none => rfl
  | some limit =>
      simp only [cut, gt_iff_lt, ← Nat.not_le, ite_not]
      rfl

theorem pipeline_of_omitted {frames : List StackFrame} {omitted : Nat}
    (h : (heeded frames).length ≤ omitted) (limit : Option Nat) :
    pipeline frames omitted limit = [] := by
  rw [pipeline_eq_cut, pipeline, List.drop_eq_nil_of_le h]
  cases limit <;> rfl

theorem located_of_mem_pipeline {frames : List StackFrame} {omitted : Nat} {limit : Option Nat}
    {callSite : Option SourceLocation} {name : String} {language : Language}
    (h : .frame callSite name language ∈ pipeline frames omitted limit) :
    language = .ruby ∨ callSite.isSome := by
  have hwhole : .frame callSite name language ∈ pipeline frames omitted none := by
    rw [pipeline_eq_cut] at h
    cases limit with
    | none => exact h
    | some limit =>
        rw [cut] at h
        split at h
        · simp only [List.mem_append, List.mem_singleton, reduceCtorEq, or_false] at h
          exact List.mem_of_mem_take h
        · exact h
  have hkept := (List.rdropWhile_prefix _ _).subset hwhole
  obtain ⟨frame, hframe, heq⟩ := List.mem_map.mp hkept
  have hshown := (List.mem_filter.mp hframe).2
  cases heq
  simpa using hshown

end Materialized

/-- Where more frames were to be omitted than there are, there are no activations either. -/
theorem Backtrace.locations_of_content {backtrace : Backtrace} {frames : List StackFrame}
    {limit : Option Nat}
    (h : backtrace.content = Materialized.ofFrames frames backtrace.omitted limit) :
    backtrace.locations = Activation.locations backtrace.activations := by
  rw [Materialized.ofFrames_eq] at h
  have htotal : backtrace.total = (Materialized.heeded frames).length :=
    congrArg Materialized.total h
  have hactivations :
      backtrace.activations = Materialized.pipeline frames backtrace.omitted limit :=
    congrArg Materialized.activations h
  by_cases henough : backtrace.omitted ≤ backtrace.total
  · exact locations_eq henough
  · have hfew : backtrace.total < backtrace.omitted := by omega
    have hempty := Materialized.pipeline_of_omitted (htotal ▸ hfew.le) limit
    rw [hactivations, hempty, locations, locations?_eq_none_iff.mpr hfew]
    rfl

namespace Capture

variable (capture : Capture) (uses : List BacktraceUse)

theorem activations_along : (capture.backtrace.along uses).activations =
    match capture with
    | stack frames omitted =>
      Materialized.pipeline frames omitted (BacktraceUse.limitInEffect uses)
    | unused => [.omittedUnused] := by
  rw [Backtrace.activations, content_along]
  cases capture with
  | stack frames omitted =>
      exact congrArg Materialized.activations (Materialized.ofFrames_eq _ _ _)
  | unused => rfl

theorem locations_along : (capture.backtrace.along uses).locations =
    Activation.locations (capture.backtrace.along uses).activations := by
  cases capture with
  | stack frames omitted =>
      apply Backtrace.locations_of_content
      rw [omitted_along]
      exact content_along _ uses
  | unused =>
      apply Backtrace.locations_eq
      rw [omitted_along]
      exact Nat.zero_le _

theorem located_of_mem {callSite : Option SourceLocation} {name : String} {language : Language}
    (h : .frame callSite name language ∈ (capture.backtrace.along uses).activations) :
    language = .ruby ∨ callSite.isSome := by
  rw [activations_along] at h
  cases capture with
  | stack frames omitted => exact Materialized.located_of_mem_pipeline h
  | unused => simp at h

end Capture

namespace Activation

theorem drop_of_mem_frameNumbers {activations : List Activation} {n : Nat}
    (h : n ∈ frameNumbers activations) :
    ∃ callSite name language, activations[n]? = some (.frame callSite name language) ∧
      activations.drop n = .frame callSite name language :: activations.drop (n + 1) := by
  obtain ⟨hn, hframe⟩ := List.mem_filter.mp h
  rw [List.mem_range] at hn
  have hdrop := List.drop_eq_getElem_cons hn
  simp only [List.getElem?_eq_getElem hn, Option.any_some] at hframe
  cases hactivation : activations[n] with
  | frame callSite name language =>
      rw [hactivation] at hdrop
      exact ⟨callSite, name, language, by rw [List.getElem?_eq_getElem hn, hactivation], hdrop⟩
  | omittedLimit => simp [hactivation, isFrame] at hframe
  | omittedUnused => simp [hactivation, isFrame] at hframe

theorem exists_frameNumber {activations : List Activation} {i : Nat} {location : Location}
    (h : (locations activations)[i]? = some location) :
    ∃ n, (frameNumbers activations)[i]? = some n ∧
      location? (activations.drop n) = some location := by
  have hmap := congrArg (·[i]?) (map_some_locations activations)
  simp only [List.getElem?_map, h, Option.map_some] at hmap
  obtain ⟨n, hn, heq⟩ := Option.map_eq_some_iff.mp hmap.symm
  exact ⟨n, hn, heq⟩

end Activation

theorem Location.display_eq_iff (path : String) (line : Nat) (label : String) {nameless : Prop}
    [Decidable nameless] (hnameless : nameless → label = "") :
    Location.display ⟨path, line, label⟩ = path ++ ":" ++ toString line ++
        (if nameless then "" else ":in '" ++ label ++ "'") ↔
      ¬ (line = 0 ∨ nameless) := by
  have hcolon : (":").length = 1 := rfl
  have hquote : ("'").length = 1 := rfl
  have hmark : (":in '").length = 5 := rfl
  have hzero : (toString 0).length = 1 := rfl
  rw [Location.display]
  by_cases hline : line = 0
  · rw [if_pos hline, hline]
    apply iff_of_false _ (by simp)
    intro heq
    have hlength := congrArg String.length heq
    split at hlength
    · next h =>
        rw [hnameless h] at hlength
        simp only [String.length_append, String.length_empty] at hlength
        omega
    · simp only [String.length_append] at hlength
      omega
  · rw [if_neg hline]
    by_cases h : nameless
    · apply iff_of_false _ (by simp [h])
      intro heq
      have hlength := congrArg String.length heq
      simp only [if_pos h, String.length_append, String.length_empty] at hlength
      omega
    · apply iff_of_true _ (by simp [hline, h])
      simp only [if_neg h, String.append_assoc]

namespace Formatter

/-- Shows each frame as its location does: no exception, nothing in front, core files hidden and
every path as it is. -/
def bare (interleaveNative : Bool) : Formatter :=
  { flags := { omitException := true, omitFrom := true, interleaveNative } }

theorem display_eq_frameText_iff (interleaveNative : Bool) (name : String) {language : Language}
    {place : Option SourceLocation} (hlocated : language = .ruby ∨ place.isSome) :
    ∃ text, (bare interleaveNative).frameText language name place = .ok text ∧
      (Location.display ⟨(place.map (·.path)).getD unknownSource,
          (place.map (·.line)).getD 0, name⟩ = text ↔
        ¬ ((∃ location, place = some location ∧ location.line = 0) ∨
          language ≠ .ruby ∧ name = "")) := by
  cases place with
  | none =>
      have hruby : language = .ruby := by simpa using hlocated
      refine ⟨_, rfl, ?_⟩
      simp [hruby, Location.display, String.append_assoc]
  | some location =>
      refine ⟨_, rfl, ?_⟩
      have hnameless : language ≠ .ruby ∧ name.isEmpty → name = "" := by simp
      have hiff := Location.display_eq_iff location.path location.line name hnameless
      simpa using hiff

theorem lineAt_bare {interleaveNative : Bool} {activations : List Activation} {n : Nat}
    {callSite : Option SourceLocation} {name : String} {language : Language} {text : String}
    (hdrop : activations.drop n = .frame callSite name language :: activations.drop (n + 1))
    (htext : (bare interleaveNative).frameText language name
      (reported false (activations.drop n)) = .ok text)
    (exception : Option Exception) :
    (bare interleaveNative).lineAt activations n exception = .ok text := by
  rw [hdrop] at htext
  have hlead : ∀ isFirst, (bare interleaveNative).lead isFirst = "" := fun _ => rfl
  have hbehind : ∀ isFirst, (bare interleaveNative).behind isFirst exception = "" := by
    intro isFirst
    cases exception <;> rfl
  have hcore : (bare interleaveNative).flags.includeCore = false := rfl
  rw [lineAt, hdrop, line_frame, hlead, hbehind, hcore, htext]
  simp [Except.map]

end Formatter

namespace Backtrace

/-- Whatever the capture and the uses of a backtrace, its locations are those of its frames in
order, and each reads as the frame's line does when nothing is put around it. The exceptions are the
frames that report line 0, which only the line shows, and the nameless frames of other languages,
whose name only the location shows. -/
theorem locations_read_as_lines (capture : Capture) (uses : List BacktraceUse)
    (interleaveNative : Bool) (exception : Option Exception) :
    let backtrace := capture.backtrace.along uses
    let activations := backtrace.activations
    let formatter := Formatter.bare interleaveNative
    backtrace.locations.length = (frameNumbers activations).length ∧
      ∀ (i : Nat) (location : Location), backtrace.locations[i]? = some location →
        ∃ n line, (frameNumbers activations)[i]? = some n ∧
          formatter.lineAt activations n exception = .ok line ∧
          (formatter.interleaves backtrace = false →
            (formatter.format exception backtrace)[n]? = some line) ∧
          (location.display = line ↔
            ¬ ((∃ place, reported false (activations.drop n) = some place ∧ place.line = 0) ∨
              ∃ callSite language, activations[n]? = some (.frame callSite "" language) ∧
                language ≠ .ruby)) := by
  intro backtrace activations formatter
  have hall : backtrace.locations = Activation.locations activations :=
    capture.locations_along uses
  rw [hall]
  constructor
  · simpa using congrArg List.length (map_some_locations activations)
  · intro i location hlocation
    obtain ⟨n, hnumber, hat⟩ := exists_frameNumber hlocation
    obtain ⟨callSite, name, language, hframe, hdrop⟩ :=
      drop_of_mem_frameNumbers (List.mem_of_getElem? hnumber)
    have hlocated : language = .ruby ∨ (reported false (activations.drop n)).isSome := by
      have hkept := capture.located_of_mem uses (List.mem_of_getElem? hframe)
      rw [hdrop]
      cases language with
      | ruby => exact .inl rfl
      | foreign => exact hkept
      | internal => exact hkept
    obtain ⟨line, htext, hiff⟩ :=
      Formatter.display_eq_frameText_iff interleaveNative name hlocated
    have hline := Formatter.lineAt_bare hdrop htext exception
    rw [hdrop, location?_frame, ← hdrop, Option.some_inj] at hat
    refine ⟨n, line, hnumber, hline, ?_, ?_⟩
    · intro hplain
      have hn : n < activations.length := (List.getElem?_eq_some_iff.mp hframe).1
      have hlines : activations = [] → exception = none ∨ formatter.flags.omitException :=
        fun _ => .inr rfl
      rw [Formatter.format_eq_lines hplain hlines, Formatter.getElem?_lines, if_pos hn, hline]
      rfl
    · rw [← hat, hiff]
      simp [hframe, and_comm]

private def oddFrames : Capture := .stack [
  ⟨"each", .ruby, false, some ⟨"<internal:core> array.rb", 4⟩⟩,
  ⟨"", .foreign, false, some ⟨"glue.c", 9⟩⟩, ⟨"eval", .ruby, false, some ⟨"(eval)", 0⟩⟩,
  ⟨"<main>", .ruby, false, some ⟨"app.rb", 3⟩⟩] 0

theorem locations_read_as_lines_oddFrames :
    let backtrace := oddFrames.backtrace.along [.build (.limit (some 3))]
    let lines := (Formatter.bare false).format none backtrace
    backtrace.locations[0]? = some ⟨"glue.c", 9, "each"⟩ ∧
      lines[0]? = some (Location.display ⟨"glue.c", 9, "each"⟩) ∧
      backtrace.locations[1]? = some ⟨"glue.c", 9, ""⟩ ∧
      lines[1]? ≠ some (Location.display ⟨"glue.c", 9, ""⟩) ∧
      backtrace.locations[2]? = some ⟨"(eval)", 0, "eval"⟩ ∧
      lines[2]? ≠ some (Location.display ⟨"(eval)", 0, "eval"⟩) := by
  intro backtrace lines
  obtain ⟨-, hread⟩ :=
    locations_read_as_lines oddFrames [.build (.limit (some 3))] false none
  have hfirst : backtrace.locations[0]? = some ⟨"glue.c", 9, "each"⟩ := by decide
  have hsecond : backtrace.locations[1]? = some ⟨"glue.c", 9, ""⟩ := by decide
  have hthird : backtrace.locations[2]? = some ⟨"(eval)", 0, "eval"⟩ := by decide
  obtain ⟨_, first, hnumber, -, hline, hfirstIff⟩ := hread 0 _ hfirst
  obtain ⟨_, second, hsecondNumber, -, hsecondLine, hsecondIff⟩ := hread 1 _ hsecond
  obtain ⟨_, third, hthirdNumber, -, hthirdLine, hthirdIff⟩ := hread 2 _ hthird
  obtain rfl := Option.some.inj hnumber
  obtain rfl := Option.some.inj hsecondNumber
  obtain rfl := Option.some.inj hthirdNumber
  refine ⟨hfirst, ?_, hsecond, ?_, hthird, ?_⟩
  · rw [hfirstIff.mpr ?_]
    · exact hline rfl
    · rintro (⟨place, hplace, hzero⟩ | ⟨callSite, language, hframe, -⟩)
      · obtain rfl := Option.some.inj hplace
        simp at hzero
      · have hname := congrArg Activation.name? (Option.some.inj hframe)
        simp [Activation.name?] at hname
  · rw [hsecondLine rfl]
    intro heq
    apply hsecondIff.mp (Option.some.inj heq).symm
    exact .inr ⟨_, .foreign, rfl, by decide⟩
  · rw [hthirdLine rfl]
    intro heq
    apply hthirdIff.mp (Option.some.inj heq).symm
    exact .inl ⟨_, rfl, rfl⟩

end Backtrace

end RubyRuntime
