import RubyRuntime.Proofs.Backtrace.Rendering

/-!
# Backtraces with a limit

The limit cuts the activations before anything is rendered, but a frame may show the location of one
further out. So a limited backtrace shows the first lines of the whole one, except for the frames
whose location the cut has removed: they fall back to their own, which is in the core library or not
known. With a limit of 0 the marker of the cut is the first line, and a marker leaves no place for
the exception.
-/
namespace RubyRuntime

open Activation

namespace Materialized

theorem isFrame_of_mem_pipeline {frames : List StackFrame} {omitted : Nat} {activation : Activation}
    (h : activation ∈ pipeline frames omitted none) : activation.isFrame := by
  obtain ⟨frame, -, heq⟩ := List.mem_map.mp ((List.rdropWhile_prefix _ _).subset h)
  rw [← heq]
  rfl

theorem cut_cons {limit : Option Nat} (h : limit ≠ some 0) (front : Activation)
    (rest : List Activation) : ∃ others, cut limit (front :: rest) = front :: others := by
  match limit with
  | none => exact ⟨rest, rfl⟩
  | some 0 => exact absurd rfl h
  | some (bound + 1) =>
      rw [cut]
      split
      · exact ⟨rest.take bound ++ [omittedLimit], rfl⟩
      · exact ⟨rest, rfl⟩

end Materialized

namespace Activation

theorem nextUserLocation_append (inner outer : List Activation) :
    nextUserLocation (inner ++ outer) = (nextUserLocation inner).or (nextUserLocation outer) := by
  simp [nextUserLocation, List.filterMap_append, List.find?_append]

/-- Whether a frame shows a location from further out if it finds one: it is Ruby code, and its own
call site is not known or hidden inside the core library. -/
def looksOutward (includeCore : Bool) : Activation → Bool
  | .frame callSite _ .ruby => callSite.all fun location => location.isCore && !includeCore
  | _ => false

theorem isCore_of_looksOutward {includeCore : Bool} {front : Activation}
    (h : front.looksOutward includeCore) {location : SourceLocation}
    (hown : front.callSite = some location) : location.isCore := by
  match front with
  | .frame callSite name .ruby =>
      obtain rfl : callSite = some location := hown
      simp only [looksOutward, Option.all_some, Bool.and_eq_true] at h
      exact h.1
  | .frame _ _ .foreign | .frame _ _ .internal | .omittedLimit | .omittedUnused => cases h

theorem reported_cons (includeCore : Bool) (front : Activation) (rest : List Activation) :
    reported includeCore (front :: rest) =
      if front.looksOutward includeCore then (nextUserLocation (front :: rest)).or front.callSite
      else front.callSite := by
  match front with
  | .frame callSite name .ruby => cases callSite <;> rfl
  | .frame _ _ .foreign | .frame _ _ .internal | .omittedLimit | .omittedUnused => rfl

/-- What lies beyond the cut is missed by a frame that looks outward, finds nothing before the cut
and would have found something there. -/
theorem reported_append_iff (includeCore : Bool) (front : Activation)
    (rest outer : List Activation) :
    reported includeCore (front :: rest ++ [.omittedLimit]) =
        reported includeCore (front :: rest ++ outer) ↔
      ¬ (front.looksOutward includeCore ∧ nextUserLocation (front :: rest) = none ∧
        nextUserLocation outer ≠ none) := by
  have hmarker : nextUserLocation [.omittedLimit] = none := rfl
  rw [List.cons_append, List.cons_append, reported_cons, reported_cons, ← List.cons_append,
    ← List.cons_append, nextUserLocation_append, nextUserLocation_append, hmarker]
  cases hfront : front.looksOutward includeCore with
  | false => simp
  | true =>
      cases nextUserLocation (front :: rest) with
      | some location => simp
      | none =>
          cases houter : nextUserLocation outer with
          | none => simp
          | some location =>
              -- A call site of its own would be in the core library, which a user location is not.
              have hown : front.callSite ≠ some location := by
                intro hown
                have huser := List.find?_some houter
                simp [isCore_of_looksOutward hfront hown] at huser
              simpa using hown

/-- Whether the frame of the given number shows a location that the limit cuts off: it looks
outward, and there is no user location before the limit but one beyond. -/
def losesLocation (includeCore : Bool) (activations : List Activation) (limit n : Nat) : Bool :=
  activations[n]?.any (looksOutward includeCore) &&
    (nextUserLocation ((activations.take limit).drop n)).isNone &&
    (nextUserLocation (activations.drop limit)).isSome

theorem drop_take_append {activations : List Activation} {limit n : Nat} (hn : n ≤ limit)
    (hcut : limit ≤ activations.length) (outer : List Activation) :
    (activations.take limit ++ outer).drop n = (activations.take limit).drop n ++ outer := by
  apply List.drop_append_of_le_length
  simp only [List.length_take]
  omega

theorem exists_front {activations : List Activation} {limit n : Nat} (hn : n < limit)
    (hcut : limit ≤ activations.length) :
    ∃ front rest, activations[n]? = some front ∧
      (activations.take limit).drop n = front :: rest ∧
      (activations.take limit ++ [omittedLimit]).drop n = front :: rest ++ [omittedLimit] ∧
      activations.drop n = front :: rest ++ activations.drop limit := by
  have hinner : (activations.take limit).drop n ≠ [] := by
    simp only [ne_eq, List.drop_eq_nil_iff, List.length_take]
    omega
  obtain ⟨front, rest, heq⟩ := List.exists_cons_of_ne_nil hinner
  have hwhole : activations.drop n = front :: rest ++ activations.drop limit := by
    rw [← heq, ← drop_take_append hn.le hcut, List.take_append_drop]
  refine ⟨front, rest, ?_, heq, ?_, hwhole⟩
  · rw [← List.head?_drop, hwhole]
    rfl
  · rw [drop_take_append hn.le hcut, heq]

theorem reported_cut_iff {activations : List Activation} {limit n : Nat} (hn : n < limit)
    (hcut : limit ≤ activations.length) (includeCore : Bool) :
    reported includeCore ((activations.take limit ++ [omittedLimit]).drop n) =
        reported includeCore (activations.drop n) ↔
      losesLocation includeCore activations limit n = false := by
  obtain ⟨front, rest, hfront, hinner, hlimited, hwhole⟩ := exists_front hn hcut
  rw [losesLocation, hfront, hinner, hlimited, hwhole, reported_append_iff]
  simp

theorem exists_kept_front {activations : List Activation} {limit n : Nat} (hn : n < limit)
    (hcut : limit ≤ activations.length) {includeCore : Bool}
    (hkept : losesLocation includeCore activations limit n = false) :
    ∃ front rest other, (activations.take limit ++ [omittedLimit]).drop n = front :: rest ∧
      activations.drop n = front :: other ∧
      reported includeCore (front :: rest) = reported includeCore (front :: other) := by
  have hreported := (reported_cut_iff hn hcut _).mpr hkept
  obtain ⟨front, rest, -, -, hlimited, hwhole⟩ := exists_front hn hcut
  rw [hlimited, hwhole] at hreported
  exact ⟨front, rest ++ [omittedLimit], rest ++ activations.drop limit, hlimited, hwhole, hreported⟩

theorem reported_of_losesLocation {activations : List Activation} {limit n : Nat} (hn : n < limit)
    (hcut : limit ≤ activations.length) {includeCore : Bool}
    (h : losesLocation includeCore activations limit n) :
    reported includeCore ((activations.take limit ++ [omittedLimit]).drop n) =
      activations[n]?.bind callSite := by
  have hmarker : nextUserLocation [omittedLimit] = none := rfl
  obtain ⟨front, rest, hfront, hinner, hlimited, -⟩ := exists_front hn hcut
  rw [losesLocation, hfront, hinner] at h
  simp only [Option.any_some, Bool.and_eq_true, Option.isNone_iff_eq_none] at h
  rw [hlimited, List.cons_append, reported_cons, if_pos h.1.1, ← List.cons_append,
    nextUserLocation_append, h.1.2, hmarker, hfront]
  rfl

theorem location?_congr {front : Activation} {rest other : List Activation}
    (h : reported false (front :: rest) = reported false (front :: other)) :
    location? (front :: rest) = location? (front :: other) := by
  cases front with
  | frame callSite name language => rw [location?_frame, location?_frame, h]
  | omittedLimit => rfl
  | omittedUnused => rfl

theorem location?_eq_none {activations : List Activation}
    (h : ∀ a ∈ activations, a.isFrame = false) : location? activations = none := by
  match activations with
  | [] | .omittedLimit :: _ | .omittedUnused :: _ => rfl
  | .frame callSite name language :: rest =>
      have hframe := h _ List.mem_cons_self
      simp [isFrame] at hframe

theorem locations_eq_nil {activations : List Activation}
    (h : ∀ a ∈ activations, a.isFrame = false) : locations activations = [] := by
  apply List.eq_nil_of_length_eq_zero
  simpa [length_locations] using h

theorem getElem?_locations {frames markers : List Activation} (hframes : ∀ a ∈ frames, a.isFrame)
    (hmarkers : ∀ a ∈ markers, a.isFrame = false) (n : Nat) :
    (locations (frames ++ markers))[n]? = location? ((frames ++ markers).drop n) := by
  induction frames generalizing n with
  | nil =>
      have hrest : ∀ a ∈ markers.drop n, a.isFrame = false :=
        fun a ha => hmarkers a (List.mem_of_mem_drop ha)
      rw [List.nil_append, locations_eq_nil hmarkers, location?_eq_none hrest]
      rfl
  | cons frame rest ih =>
      have hframe := hframes frame List.mem_cons_self
      have hrest := ih fun a ha => hframes a (List.mem_cons_of_mem _ ha)
      cases frame with
      | frame callSite name language =>
          rw [List.cons_append, locations_cons, location?_frame]
          cases n with
          | zero =>
              rw [List.drop_zero, location?_frame]
              rfl
          | succ n => exact hrest n
      | omittedLimit => cases hframe
      | omittedUnused => cases hframe

end Activation

namespace Formatter

theorem line_congr {formatter : Formatter} {front : Activation} {rest other : List Activation}
    (h : reported formatter.flags.includeCore (front :: rest) =
      reported formatter.flags.includeCore (front :: other))
    (isFirst : Bool) (exception : Option Exception) :
    formatter.line isFirst exception (front :: rest) =
      formatter.line isFirst exception (front :: other) := by
  cases front with
  | frame callSite name language => rw [line_frame, line_frame, h]
  | omittedLimit => rfl
  | omittedUnused => rfl

variable {formatter : Formatter} {activations : List Activation} {limit : Nat}

theorem length_lines_cut (hcut : limit ≤ activations.length) (exception : Option Exception) :
    (formatter.lines exception true (activations.take limit ++ [omittedLimit])).length =
      limit + 1 := by
  simp [lines_eq, hcut]

theorem getElem?_lines_cut (hcut : limit ≤ activations.length) {n : Nat} (hn : n < limit)
    (hkept : losesLocation formatter.flags.includeCore activations limit n = false)
    (exception : Option Exception) :
    (formatter.lines exception true (activations.take limit ++ [omittedLimit]))[n]? =
      (formatter.lines exception true activations)[n]? := by
  obtain ⟨front, rest, other, hlimited, hwhole, hreported⟩ := exists_kept_front hn hcut hkept
  have hshort : n < (activations.take limit ++ [omittedLimit]).length := by
    simp only [List.length_append, List.length_take]
    omega
  rw [getElem?_lines, getElem?_lines, if_pos hshort, if_pos (by omega), lineAt, lineAt, hlimited,
    hwhole]
  exact congrArg (some ∘ shown) (line_congr hreported _ _)

theorem getElem?_lines_marker (hcut : limit ≤ activations.length) (exception : Option Exception) :
    (formatter.lines exception true (activations.take limit ++ [omittedLimit]))[limit]? =
      some "(omitted due to backtraces limit)" := by
  have hlength : (activations.take limit).length = limit := List.length_take_of_le hcut
  have hmarker : (activations.take limit ++ [omittedLimit]).drop limit = [omittedLimit] := by
    rw [List.drop_append_of_le_length hlength.ge, List.drop_of_length_le hlength.le]
    rfl
  rw [getElem?_lines, if_pos (by simp [hlength]), lineAt, hmarker]
  rfl

theorem format_congr {backtrace other : Backtrace}
    (hactivations : backtrace.activations = other.activations)
    (hnative : backtrace.native = other.native) (exception : Option Exception) :
    formatter.format exception backtrace = formatter.format exception other := by
  simp only [format, hactivations, hnative]

end Formatter

namespace Backtrace

section
variable {backtrace : Backtrace} (hunread : backtrace.isMaterialized = false)
include hunread

theorem content_withLimit (limit : Option Nat) : (backtrace.withLimit limit).content =
    Materialized.ofFrames backtrace.frames backtrace.omitted limit := by
  have hcached : backtrace.cached = none := by simpa [isMaterialized] using hunread
  rw [content, withLimit, hcached]
  rfl

theorem activations_withLimit (limit : Option Nat) : (backtrace.withLimit limit).activations =
    Materialized.cut limit (backtrace.withLimit none).activations := by
  rw [activations, activations, content_withLimit hunread, content_withLimit hunread,
    Materialized.ofFrames_eq, Materialized.ofFrames_eq]
  exact Materialized.pipeline_eq_cut _ _ _

theorem locations_withLimit (limit : Option Nat) : (backtrace.withLimit limit).locations =
    Activation.locations (backtrace.withLimit limit).activations :=
  locations_of_content (content_withLimit hunread limit)

theorem isFrame_of_mem {activation : Activation}
    (h : activation ∈ (backtrace.withLimit none).activations) : activation.isFrame := by
  rw [activations, content_withLimit hunread, Materialized.ofFrames_eq] at h
  exact Materialized.isFrame_of_mem_pipeline h

theorem getElem?_locations_withLimit (limit : Option Nat) (n : Nat) :
    (backtrace.withLimit limit).locations[n]? =
      location? ((backtrace.withLimit limit).activations.drop n) := by
  have hframes : ∀ a ∈ (backtrace.withLimit none).activations, a.isFrame :=
    fun a => isFrame_of_mem hunread
  rw [locations_withLimit hunread, activations_withLimit hunread]
  have hwhole : (Activation.locations ((backtrace.withLimit none).activations ++ []))[n]? =
      location? (((backtrace.withLimit none).activations ++ []).drop n) :=
    getElem?_locations hframes (by simp) n
  rw [List.append_nil] at hwhole
  cases limit with
  | none => exact hwhole
  | some limit =>
      rw [Materialized.cut]
      split
      · apply getElem?_locations
        · exact fun a ha => hframes a (List.mem_of_mem_take ha)
        · simp [isFrame]
      · exact hwhole

variable {limit : Nat} (hlong : limit < (backtrace.withLimit none).activations.length)
include hlong

theorem activations_cut : (backtrace.withLimit (some limit)).activations =
    (backtrace.withLimit none).activations.take limit ++ [omittedLimit] := by
  rw [activations_withLimit hunread, Materialized.cut, if_pos hlong]

theorem length_locations_cut : (backtrace.withLimit (some limit)).locations.length = limit := by
  have hframes : ∀ a ∈ (backtrace.withLimit none).activations.take limit, a.isFrame :=
    fun a ha => isFrame_of_mem hunread (List.mem_of_mem_take ha)
  rw [locations_withLimit hunread, activations_cut hunread hlong, length_locations,
    List.filter_append, List.filter_eq_self.mpr hframes]
  simp [isFrame, hlong.le]

theorem getElem?_locations_cut {n : Nat} (hn : n < limit)
    (hkept : losesLocation false (backtrace.withLimit none).activations limit n = false) :
    (backtrace.withLimit (some limit)).locations[n]? =
      (backtrace.withLimit none).locations[n]? := by
  obtain ⟨front, rest, other, hlimited, hwhole, hreported⟩ := exists_kept_front hn hlong.le hkept
  rw [getElem?_locations_withLimit hunread, getElem?_locations_withLimit hunread,
    activations_cut hunread hlong, hlimited, hwhole]
  exact location?_congr hreported

end

private theorem take_congr {α : Type} {xs ys : List α} {limit : Nat}
    (h : ∀ n < limit, xs[n]? = ys[n]?) : xs.take limit = ys.take limit := by
  apply List.ext_getElem?
  intro n
  rw [List.getElem?_take, List.getElem?_take]
  split
  · next hn => exact h n hn
  · rfl

/-- A limit that no activation exceeds changes nothing. One that is exceeded leaves as many lines
and a marker, and as many locations. A frame before the limit reports what it reports without a
limit unless it loses its location, and then it reports its own call site; the lines and the
locations of the other frames are those of the whole backtrace. -/
theorem limit_cuts_unless_location_lost {formatter : Formatter}
    (hplain : formatter.flags.interleaveNative = false) {backtrace : Backtrace}
    (hunread : backtrace.isMaterialized = false) (exception : Option Exception) (limit : Nat) :
    let whole := backtrace.withLimit none
    let limited := backtrace.withLimit (some limit)
    let marker := "(omitted due to backtraces limit)"
    let loses := fun includeCore => losesLocation includeCore whole.activations limit
    (whole.activations.length ≤ limit →
      formatter.format exception limited = formatter.format exception whole ∧
        limited.locations = whole.locations) ∧
    (limit < whole.activations.length →
      (∀ includeCore, ∀ n < limit,
        (reported includeCore (limited.activations.drop n) =
            reported includeCore (whole.activations.drop n) ↔ loses includeCore n = false) ∧
        (loses includeCore n → reported includeCore (limited.activations.drop n) =
          whole.activations[n]?.bind callSite)) ∧
      (formatter.format exception limited).length = limit + 1 ∧
      (formatter.format exception limited)[limit]? = some marker ∧
      (∀ n < limit, loses formatter.flags.includeCore n = false →
        (formatter.format exception limited)[n]? = (formatter.format exception whole)[n]?) ∧
      ((∀ n < limit, loses formatter.flags.includeCore n = false) →
        formatter.format exception limited =
          (formatter.format exception whole).take limit ++ [marker]) ∧
      limited.locations.length = limit ∧
      (∀ n < limit, loses false n = false → limited.locations[n]? = whole.locations[n]?) ∧
      ((∀ n < limit, loses false n = false) →
        limited.locations = whole.locations.take limit)) := by
  intro whole limited marker loses
  have hactivations : limited.activations = Materialized.cut (some limit) whole.activations :=
    activations_withLimit hunread _
  constructor
  · intro hshort
    have hsame : limited.activations = whole.activations := by
      rw [hactivations, Materialized.cut, if_neg (by omega)]
    constructor
    · exact Formatter.format_congr hsame rfl exception
    · rw [locations_withLimit hunread, locations_withLimit hunread, hsame]
  · intro hlong
    have hcut : limited.activations = whole.activations.take limit ++ [omittedLimit] :=
      activations_cut hunread hlong
    have hlimitedLines : formatter.format exception limited =
        formatter.lines exception true (whole.activations.take limit ++ [omittedLimit]) := by
      rw [← hcut]
      apply Formatter.format_eq_lines
      · simp [Formatter.interleaves, hplain]
      · simp [hcut]
    have hwholeLines : formatter.format exception whole =
        formatter.lines exception true whole.activations := by
      apply Formatter.format_eq_lines
      · simp [Formatter.interleaves, hplain]
      · intro hempty
        simp [hempty] at hlong
    have hline : ∀ n < limit, loses formatter.flags.includeCore n = false →
        (formatter.format exception limited)[n]? = (formatter.format exception whole)[n]? := by
      intro n hn hkept
      rw [hlimitedLines, hwholeLines]
      exact Formatter.getElem?_lines_cut hlong.le hn hkept exception
    have hmarker : (formatter.format exception limited)[limit]? = some marker := by
      rw [hlimitedLines]
      exact Formatter.getElem?_lines_marker hlong.le exception
    have hlength : (formatter.format exception limited).length = limit + 1 := by
      rw [hlimitedLines]
      exact Formatter.length_lines_cut hlong.le exception
    have hlocation : ∀ n < limit, loses false n = false →
        limited.locations[n]? = whole.locations[n]? :=
      fun n hn => getElem?_locations_cut hunread hlong hn
    have hcount : limited.locations.length = limit := length_locations_cut hunread hlong
    refine ⟨?_, hlength, hmarker, hline, ?_, hcount, hlocation, ?_⟩
    · intro includeCore n hn
      rw [hcut]
      exact ⟨reported_cut_iff hn hlong.le _, reported_of_losesLocation hn hlong.le⟩
    · intro hkept
      calc formatter.format exception limited
          = (formatter.format exception limited).take (limit + 1) := by
            rw [← hlength, List.take_length]
        _ = (formatter.format exception limited).take limit ++ [marker] := by
            rw [List.take_add_one, hmarker]
            rfl
        _ = (formatter.format exception whole).take limit ++ [marker] := by
            rw [take_congr fun n hn => hline n hn (hkept n hn)]
    · intro hkept
      calc limited.locations
          = limited.locations.take limit := by
            rw [← hcount, List.take_length]
        _ = whole.locations.take limit := take_congr fun n hn => hlocation n hn (hkept n hn)

private def coreCalls : Backtrace := Backtrace.ofFrames [
  ⟨"each", .ruby, false, some ⟨"<internal:core> array.rb", 40⟩⟩,
  ⟨"run", .ruby, false, some ⟨"app.rb", 5⟩⟩,
  ⟨"times", .ruby, false, some ⟨"<internal:core> integer.rb", 7⟩⟩,
  ⟨"<main>", .ruby, false, some ⟨"app.rb", 9⟩⟩] 0

theorem limit_cuts_unless_location_lost_coreCalls :
    let whole := coreCalls.withLimit none
    let limited := coreCalls.withLimit (some 3)
    let exception := some ⟨"RuntimeError", "boom"⟩
    let lines := Formatter.format {} exception limited
    coreCalls.isMaterialized = false ∧ 3 < whole.activations.length ∧ lines.length = 4 ∧
      lines[3]? = some "(omitted due to backtraces limit)" ∧
      lines[0]? = some "app.rb:5:in 'each': boom (RuntimeError)" ∧
      losesLocation false whole.activations 3 2 ∧
      reported false (limited.activations.drop 2) = some ⟨"<internal:core> integer.rb", 7⟩ ∧
      limited.locations.length = 3 ∧ limited.locations[1]? = whole.locations[1]? ∧
      Formatter.format {} exception (coreCalls.withLimit (some 2)) =
        (Formatter.format {} exception whole).take 2 ++ ["(omitted due to backtraces limit)"] := by
  intro whole limited exception lines
  have hplain : ({} : Formatter).flags.interleaveNative = false := rfl
  have hunread : coreCalls.isMaterialized = false := rfl
  have hlong : 3 < whole.activations.length := by decide
  have hloses : losesLocation false whole.activations 3 2 := by decide
  obtain ⟨hreported, hlength, hmarker, hline, -, hcount, hlocation, -⟩ :=
    (limit_cuts_unless_location_lost hplain hunread exception 3).2 hlong
  obtain ⟨-, -, -, -, hcut, -⟩ :=
    (limit_cuts_unless_location_lost hplain hunread exception 2).2 (by decide)
  refine ⟨hunread, hlong, hlength, hmarker, ?_, hloses, ?_, hcount, ?_, hcut (by decide)⟩
  · rw [hline 0 (by decide) (by decide)]
    decide
  · exact (hreported false 2 (by decide)).2 hloses
  · exact hlocation 1 (by decide) (by decide)

/-- The limit cuts off the user frame whose location the core frame would show. -/
theorem limit_uncovers_core_location :
    let backtrace := Backtrace.ofFrames [
      ⟨"each", .ruby, false, some ⟨"<internal:core> array.rb", 40⟩⟩,
      ⟨"run", .ruby, false, some ⟨"app.rb", 5⟩⟩] 0
    let whole := backtrace.withLimit none
    let limited := backtrace.withLimit (some 1)
    1 < whole.activations.length ∧
      Formatter.format {} none limited ≠
        (Formatter.format {} none whole).take 1 ++ ["(omitted due to backtraces limit)"] ∧
      limited.locations ≠ whole.locations.take 1 := by
  decide

end Backtrace

namespace Formatter

variable {formatter : Formatter}

theorem head?_format {backtrace : Backtrace} (h : backtrace.activations ≠ [])
    (exception : Option Exception) :
    (formatter.format exception backtrace).head? =
      some (shown (formatter.lineAt backtrace.activations 0 exception)) := by
  obtain ⟨front, rest, hactivations⟩ := List.exists_cons_of_ne_nil h
  simp only [format, hactivations]
  split
  · next halone => simp at halone
  · split <;> rfl

theorem line_some (hshown : formatter.flags.omitException = false) (e : Exception)
    (callSite : Option SourceLocation) (name : String) (language : Language)
    (rest : List Activation) :
    formatter.line true (some e) (.frame callSite name language :: rest) =
      (formatter.line true none (.frame callSite name language :: rest)).map
        (· ++ ": " ++ e.format) := by
  have hbehind : formatter.behind true (some e) = ": " ++ e.format := by
    simp [behind, hshown]
  have hnone : formatter.behind true none = "" := rfl
  rw [line_frame, line_frame, hbehind, hnone]
  cases formatter.frameText language name _ with
  | error failure => rfl
  | ok text => simp [Except.map, String.append_assoc]

theorem head?_format_cut {backtrace : Backtrace} {limit : Option Nat} {whole : List Activation}
    (hcut : backtrace.activations = Materialized.cut limit whole)
    (hframes : ∀ a ∈ whole, a.isFrame) (hshown : formatter.flags.omitException = false)
    {e : Exception}
    (hformats : ∀ failure, formatter.lineAt backtrace.activations 0 (some e) ≠ .error failure) :
    ∃ first, (formatter.format (some e) backtrace).head? = some first ∧
      (whole = [] → first = e.format) ∧
      (whole ≠ [] → limit = some 0 → first = "(omitted due to backtraces limit)") ∧
      (whole ≠ [] → limit ≠ some 0 →
        ∃ text, formatter.lineAt backtrace.activations 0 none = .ok text ∧
          first = text ++ ": " ++ e.format) := by
  cases whole with
  | nil =>
      have hempty : backtrace.activations = [] := by
        rw [hcut]
        cases limit <;> rfl
      rw [format_empty hempty hshown]
      exact ⟨e.format, rfl, fun _ => rfl, fun h => absurd rfl h, fun h => absurd rfl h⟩
  | cons front rest =>
      by_cases hzero : limit = some 0
      · have hmarker : backtrace.activations = [omittedLimit] := by
          rw [hcut, hzero]
          rfl
        refine ⟨_, head?_format (by simp [hmarker]) _, by simp, ?_, fun _ h => absurd hzero h⟩
        rw [hmarker]
        exact fun _ _ => rfl
      · obtain ⟨others, hothers⟩ := Materialized.cut_cons hzero front rest
        rw [hothers] at hcut
        refine ⟨_, head?_format (by simp [hcut]) _, by simp, fun _ h => absurd h hzero, ?_⟩
        intro _ _
        cases front with
        | frame callSite name language =>
            rw [hcut] at hformats ⊢
            have hline := line_some hshown e callSite name language others
            cases htext : formatter.line true none (.frame callSite name language :: others) with
            | error failure =>
                rw [htext] at hline
                exact absurd hline (hformats failure)
            | ok text =>
                rw [htext] at hline
                exact ⟨text, htext, congrArg shown hline⟩
        | omittedLimit => exact absurd (hframes _ List.mem_cons_self) (by decide)
        | omittedUnused => exact absurd (hframes _ List.mem_cons_self) (by decide)

end Formatter

namespace Backtrace

open BacktraceUse

/-- Whatever the capture and the uses of a backtrace, an exception that is not suppressed follows
the first line as it is without one, or is itself the first line where there is nothing to show. It
is missing exactly where a marker comes first: that of a backtrace that will never be read, or that
of a limit of 0 where there was something to cut off. -/
theorem first_line_names_exception (capture : Capture) (uses : List BacktraceUse)
    {formatter : Formatter} (hshown : formatter.flags.omitException = false) (e : Exception)
    (hformats : ∀ failure,
      formatter.lineAt (capture.backtrace.along uses).activations 0 (some e) ≠ .error failure) :
    let backtrace := capture.backtrace.along uses
    ∃ first, (formatter.format (some e) backtrace).head? = some first ∧
      (capture = .unused → first = "(omitted as the rescue expression was pure)") ∧
      ∀ frames omitted, capture = .stack frames omitted →
        let whole := Materialized.pipeline frames omitted none
        (whole = [] → first = e.format) ∧
        (whole ≠ [] → limitInEffect uses = some 0 →
          first = "(omitted due to backtraces limit)") ∧
        (whole ≠ [] → limitInEffect uses ≠ some 0 →
          ∃ text, formatter.lineAt backtrace.activations 0 none = .ok text ∧
            first = text ++ ": " ++ e.format) := by
  intro backtrace
  have hactivations := capture.activations_along uses
  cases capture with
  | unused =>
      have hmarker : backtrace.activations = [omittedUnused] := hactivations
      refine ⟨_, Formatter.head?_format (by simp [hmarker]) _, ?_, by simp⟩
      rw [hmarker]
      exact fun _ => rfl
  | stack frames omitted =>
      have hcut := hactivations.trans (Materialized.pipeline_eq_cut frames omitted _)
      have hframes : ∀ a ∈ Materialized.pipeline frames omitted none, a.isFrame :=
        fun a => Materialized.isFrame_of_mem_pipeline
      obtain ⟨first, hhead, hfirst⟩ := Formatter.head?_format_cut hcut hframes hshown hformats
      refine ⟨first, hhead, by simp, ?_⟩
      intro frames' omitted' heq
      cases heq
      exact hfirst

private def oneCall : Capture := .stack [⟨"run", .ruby, false, some ⟨"app.rb", 5⟩⟩] 0

theorem first_line_names_exception_oneCall :
    let e : Exception := ⟨"RuntimeError", "boom\ndetails"⟩
    let backtrace := oneCall.backtrace.along [.build (.native [⟨"main", none, none, false⟩])]
    let formatter : Formatter := { flags := { interleaveNative := true } }
    (formatter.format (some e) backtrace).head? =
        some "app.rb:5:in 'run': boom (RuntimeError)\ndetails" ∧
      (formatter.format (some e) (oneCall.backtrace.along [.build (.limit (some 0))])).head? =
        some "(omitted due to backtraces limit)" := by
  intro e backtrace formatter
  have hshown : formatter.flags.omitException = false := rfl
  obtain ⟨first, hfirst, -, hat⟩ := first_line_names_exception oneCall
    [.build (.native [⟨"main", none, none, false⟩])] hshown e (fun _ h => nomatch h)
  obtain ⟨bare, hbare, -, hnone⟩ := first_line_names_exception oneCall
    [.build (.limit (some 0))] hshown e (fun _ h => nomatch h)
  obtain ⟨-, -, hframe⟩ := hat _ _ rfl
  obtain ⟨text, htext, rfl⟩ := hframe (by decide) (by decide)
  obtain rfl : "app.rb:5:in 'run'" = text := Except.ok.inj htext
  obtain ⟨-, hmarker, -⟩ := hnone _ _ rfl
  obtain rfl := hmarker (by decide) rfl
  exact ⟨hfirst.trans (by decide), hbare⟩

/-- No exception stands behind the marker of a limit of 0. -/
theorem limit_zero_loses_exception :
    let e : Exception := ⟨"RuntimeError", "boom"⟩
    let backtrace := oneCall.backtrace.along [.build (.limit (some 0))]
    let formatter : Formatter := {}
    formatter.flags.omitException = false ∧
      ∃ first, formatter.lineAt backtrace.activations 0 (some e) = .ok first ∧
        (formatter.format (some e) backtrace).head? = some first ∧
        ¬ ∃ text, first = text ++ e.format := by
  refine ⟨rfl, "(omitted due to backtraces limit)", rfl, rfl, ?_⟩
  rintro ⟨text, htext⟩
  have hsuffix : (Exception.format ⟨"RuntimeError", "boom"⟩).toList <:+
      ("(omitted due to backtraces limit)").toList :=
    ⟨text.toList, by rw [htext, String.toList_append]⟩
  revert hsuffix
  decide

end Backtrace

end RubyRuntime
