import RubyRuntime.Proofs.Backtrace.Rendering

/-!
# Backtraces with frames of the host

The lines of guest code and the frames of the host are merged in their own orders. A guest line
stands behind the boundary through which the host called the code that it shows, so the lines that
have no boundary left stand behind all frames of the host. What a formatter is asked to interleave
is merged in this way, unless an exception without a backtrace is all there is to show.
-/
namespace RubyRuntime

inductive MergedLine where
  | guest (line : String)
  | native (frame : NativeFrame)

namespace MergedLine

/-- What is shown of a line. A frame of the host stands behind two tabs, with its place if its file
is known. -/
def text : MergedLine → String
  | guest line => line
  | native ⟨symbol, some file, some line, _⟩ =>
    "\t\t" ++ (symbol ++ " (" ++ file ++ ":" ++ toString line ++ ")")
  | native ⟨symbol, some file, none, _⟩ => "\t\t" ++ (symbol ++ " (" ++ file ++ ")")
  | native ⟨symbol, none, _, _⟩ => "\t\t" ++ symbol

def guest? : MergedLine → Option String
  | guest line => some line
  | native _ => none

def native? : MergedLine → Option NativeFrame
  | guest _ => none
  | native frame => some frame

@[simp] theorem guest?_guest (line : String) : (guest line).guest? = some line := rfl

@[simp] theorem guest?_native (frame : NativeFrame) : (native frame).guest? = none := rfl

@[simp] theorem native?_guest (line : String) : (guest line).native? = none := rfl

@[simp] theorem native?_native (frame : NativeFrame) : (native frame).native? = some frame := rfl

@[simp] theorem text_guest (line : String) : (guest line).text = line := rfl

@[simp] theorem text_native (frame : NativeFrame) : (native frame).text = frame.nativeLine := by
  obtain ⟨symbol, _ | file, _ | line, boundary⟩ := frame <;> rfl

theorem filterMap_guest?_map (lines : List String) :
    (lines.map guest).filterMap guest? = lines := by
  simp [List.filterMap_map, Function.comp_def]

theorem filterMap_native?_map (lines : List String) :
    (lines.map guest).filterMap native? = [] := by
  simp

theorem length_eq (merged : List MergedLine) :
    merged.length = (merged.filterMap guest?).length + (merged.filterMap native?).length := by
  induction merged with
  | nil => rfl
  | cons line rest ih =>
      cases line with
      | guest line =>
          simp only [List.filterMap_cons, guest?_guest, native?_guest, List.length_cons]
          omega
      | native frame =>
          simp only [List.filterMap_cons, guest?_native, native?_native, List.length_cons]
          omega

def merge : List String → List NativeFrame → List MergedLine
  | lines, [] => lines.map guest
  | lines, frame :: rest =>
    let due := frame.boundary.toNat
    native frame :: ((lines.take due).map guest ++ merge (lines.drop due) rest)

theorem map_text_merge (lines : List String) (frames : List NativeFrame) :
    (merge lines frames).map text = mergeNative lines frames := by
  induction frames generalizing lines with
  | nil => simp [merge, mergeNative, Function.comp_def]
  | cons frame rest ih =>
      cases hboundary : frame.boundary <;> cases lines <;>
        simp [merge, mergeNative, hboundary, ih]

theorem filterMap_guest?_merge (lines : List String) (frames : List NativeFrame) :
    (merge lines frames).filterMap guest? = lines := by
  induction frames generalizing lines with
  | nil => exact filterMap_guest?_map lines
  | cons frame rest ih =>
      rw [merge, List.filterMap_cons_none rfl, List.filterMap_append, filterMap_guest?_map, ih,
        List.take_append_drop]

theorem filterMap_native?_merge (lines : List String) (frames : List NativeFrame) :
    (merge lines frames).filterMap native? = frames := by
  induction frames generalizing lines with
  | nil => exact filterMap_native?_map lines
  | cons frame rest ih =>
      rw [merge, List.filterMap_cons_some (native?_native frame), List.filterMap_append,
        filterMap_native?_map, ih, List.nil_append]

theorem merge_append (lines : List String) (before after : List NativeFrame) :
    merge lines (before ++ after) =
      merge (lines.take (before.countP (·.boundary))) before ++
        merge (lines.drop (before.countP (·.boundary))) after := by
  induction before generalizing lines with
  | nil => simp [merge]
  | cons frame rest ih =>
      have hcount : (frame :: rest).countP (·.boundary) =
          frame.boundary.toNat + rest.countP (·.boundary) := by
        rw [List.countP_cons, Nat.add_comm]
        cases frame.boundary <;> rfl
      rw [hcount, List.cons_append, merge, merge, ih, List.take_take,
        Nat.min_eq_left (Nat.le_add_right _ _), List.drop_take, Nat.add_sub_cancel_left,
        List.drop_drop, List.cons_append, List.append_assoc]

theorem merge_of_countP_le {frames : List NativeFrame} {n : Nat}
    (h : frames.countP (·.boundary) ≤ n) (lines : List String) :
    merge lines frames = merge (lines.take n) frames ++ (lines.drop n).map guest := by
  obtain ⟨more, rfl⟩ := Nat.exists_eq_add_of_le h
  have hend : ∀ lines, merge lines frames =
      merge (lines.take (frames.countP (·.boundary))) frames ++
        (lines.drop (frames.countP (·.boundary))).map guest := by
    intro lines
    simpa [merge] using merge_append lines frames []
  rw [hend lines, hend (lines.take (frames.countP (·.boundary) + more)), List.take_take,
    Nat.min_eq_left (Nat.le_add_right _ _), List.drop_take, Nat.add_sub_cancel_left,
    List.append_assoc, ← List.map_append, ← List.drop_drop, List.take_append_drop]

/-- The frames up to the boundary behind which the line of that number is due. -/
theorem exists_boundary {frames : List NativeFrame} {k : Nat}
    (h : k < frames.countP (·.boundary)) :
    ∃ before frame after, frames = before ++ frame :: after ∧ frame.boundary ∧
      before.countP (·.boundary) = k := by
  induction frames generalizing k with
  | nil => simp at h
  | cons frame rest ih =>
      rw [List.countP_cons] at h
      by_cases hboundary : frame.boundary
      · rw [if_pos hboundary] at h
        cases k with
        | zero => exact ⟨[], frame, rest, rfl, hboundary, rfl⟩
        | succ k =>
            obtain ⟨before, next, after, rfl, hnext, hcount⟩ := ih (Nat.lt_of_succ_lt_succ h)
            exact ⟨frame :: before, next, after, rfl, hnext, by simp [hboundary, hcount]⟩
      · rw [if_neg hboundary] at h
        obtain ⟨before, next, after, rfl, hnext, hcount⟩ := ih h
        exact ⟨frame :: before, next, after, rfl, hnext, by simp [hboundary, hcount]⟩

/-- The lines of `interleave`, by where they come from. -/
def origins : List String → List NativeFrame → List MergedLine
  | [], frames => merge [] frames
  | first :: rest, frames => guest first :: merge rest frames

theorem map_text_origins (lines : List String) (frames : List NativeFrame) :
    (origins lines frames).map text = interleave lines frames := by
  cases lines with
  | nil => exact map_text_merge [] frames
  | cons first rest => exact congrArg (first :: ·) (map_text_merge rest frames)

theorem filterMap_guest?_origins (lines : List String) (frames : List NativeFrame) :
    (origins lines frames).filterMap guest? = lines := by
  cases lines with
  | nil => exact filterMap_guest?_merge [] frames
  | cons first rest => exact congrArg (first :: ·) (filterMap_guest?_merge rest frames)

theorem filterMap_native?_origins (lines : List String) (frames : List NativeFrame) :
    (origins lines frames).filterMap native? = frames := by
  cases lines with
  | nil => exact filterMap_native?_merge [] frames
  | cons first rest => exact filterMap_native?_merge rest frames

end MergedLine

open MergedLine

/-- Merging keeps the guest lines and the frames of the host in their orders and loses none of
either. The first guest line comes first. A later line stands directly behind the boundary of its
number, where there are that many boundaries, and otherwise behind all frames of the host. -/
theorem interleaved_in_order (lines : List String) (frames : List NativeFrame) :
    ∃ merged : List MergedLine,
      interleave lines frames = merged.map text ∧
      (interleave lines frames).length = lines.length + frames.length ∧
      merged.filterMap guest? = lines ∧ merged.filterMap native? = frames ∧
      (∀ first, lines.head? = some first → merged.head? = some (.guest first)) ∧
      ∀ k line, 1 ≤ k → lines[k]? = some line →
        (k ≤ frames.countP (·.boundary) →
          ∃ (before : List NativeFrame) (frame : NativeFrame) (after : List NativeFrame)
            (front back : List MergedLine),
            frames = before ++ frame :: after ∧ frame.boundary ∧
            before.countP (·.boundary) + 1 = k ∧
            merged = front ++ .native frame :: .guest line :: back ∧
            front.filterMap guest? = lines.take k ∧ front.filterMap native? = before) ∧
        (frames.countP (·.boundary) < k → ∃ front back : List MergedLine,
          merged = front ++ .guest line :: back ∧
          front.filterMap guest? = lines.take k ∧ front.filterMap native? = frames) := by
  have hguests := filterMap_guest?_origins lines frames
  have hnatives := filterMap_native?_origins lines frames
  refine ⟨origins lines frames, (map_text_origins lines frames).symm, ?_, hguests, hnatives, ?_, ?_⟩
  · rw [← map_text_origins, List.length_map, length_eq, hguests, hnatives]
  · intro first hfirst
    cases lines with
    | nil => cases hfirst
    | cons line rest => exact congrArg (some ∘ guest) (Option.some.inj hfirst)
  · intro k line hk hline
    obtain ⟨n, rfl⟩ : ∃ n, k = n + 1 := ⟨k - 1, by omega⟩
    cases lines with
    | nil => cases hline
    | cons first rest =>
        rw [List.getElem?_cons_succ] at hline
        have hdrop : rest.drop n = line :: rest.drop (n + 1) := by
          obtain ⟨hn, rfl⟩ := List.getElem?_eq_some_iff.mp hline
          exact List.drop_eq_getElem_cons hn
        constructor
        · intro henough
          obtain ⟨before, frame, after, rfl, hboundary, hcount⟩ := exists_boundary henough
          refine ⟨before, frame, after, guest first :: merge (rest.take n) before,
            merge (rest.drop (n + 1)) after, rfl, hboundary, by omega, ?_, ?_, ?_⟩
          · rw [origins, merge_append, hcount, hdrop, merge, hboundary]
            rfl
          · exact congrArg (first :: ·) (filterMap_guest?_merge _ before)
          · exact filterMap_native?_merge _ before
        · intro hfew
          refine ⟨guest first :: merge (rest.take n) frames, (rest.drop (n + 1)).map guest, ?_, ?_,
            ?_⟩
          · rw [origins, merge_of_countP_le (Nat.le_of_lt_succ hfew), hdrop]
            rfl
          · exact congrArg (first :: ·) (filterMap_guest?_merge _ frames)
          · exact filterMap_native?_merge _ frames

theorem interleaved_in_order_twoCalls :
    let lines := ["a.rb:1", "\tfrom a.rb:2", "\tfrom a.rb:3", "\tfrom a.rb:4"]
    let call : NativeFrame := ⟨"call_method", none, none, true⟩
    let frames : List NativeFrame :=
      [⟨"raise", some "kernel.c", some 10, false⟩, call, ⟨"eval", some "eval.c", none, false⟩, call,
        ⟨"main", none, some 3, false⟩]
    interleave lines frames = ["a.rb:1", "\t\traise (kernel.c:10)", "\t\tcall_method",
        "\tfrom a.rb:2", "\t\teval (eval.c)", "\t\tcall_method", "\tfrom a.rb:3", "\t\tmain",
        "\tfrom a.rb:4"] ∧
      ∃ merged : List MergedLine,
        interleave lines frames = merged.map text ∧ merged.length = 9 ∧
        merged.head? = some (.guest "a.rb:1") ∧
        (∃ (before : List NativeFrame) (frame : NativeFrame) (front back : List MergedLine),
          before.countP (·.boundary) = 1 ∧ frame.boundary ∧
          merged = front ++ .native frame :: .guest "\tfrom a.rb:3" :: back ∧
          front.filterMap native? = before) ∧
        ∃ front back : List MergedLine, merged = front ++ .guest "\tfrom a.rb:4" :: back ∧
          front.filterMap native? = frames := by
  intro lines call frames
  obtain ⟨merged, htext, hlength, -, -, hfirst, hlater⟩ := interleaved_in_order lines frames
  rw [htext, List.length_map] at hlength
  obtain ⟨before, frame, _, front, back, -, hboundary, hcount, hmerged, -, hbefore⟩ :=
    (hlater 2 "\tfrom a.rb:3" (by decide) rfl).1 (by decide)
  obtain ⟨inner, outer, hend, -, hframes⟩ :=
    (hlater 3 "\tfrom a.rb:4" (by decide) rfl).2 (by decide)
  exact ⟨by decide, merged, htext, hlength, hfirst _ rfl,
    ⟨before, frame, front, back, by omega, hboundary, hmerged, hbefore⟩, inner, outer, hend,
    hframes⟩

namespace MergedLine

/-- What is shown are the guest lines and the frames of the host, each in their order. -/
def IsMerge (lines : List String) (frames : List NativeFrame) (shown : List String) : Prop :=
  ∃ merged : List MergedLine, shown = merged.map text ∧
    merged.filterMap guest? = lines ∧ merged.filterMap native? = frames

theorem isMerge_interleave (lines : List String) (frames : List NativeFrame) :
    IsMerge lines frames (interleave lines frames) :=
  ⟨origins lines frames, (map_text_origins lines frames).symm,
    filterMap_guest?_origins lines frames, filterMap_native?_origins lines frames⟩

theorem IsMerge.length_eq {lines shown : List String} {frames : List NativeFrame}
    (h : IsMerge lines frames shown) : shown.length = lines.length + frames.length := by
  obtain ⟨merged, rfl, rfl, rfl⟩ := h
  rw [List.length_map, MergedLine.length_eq]

end MergedLine

namespace Formatter

variable {formatter : Formatter} {backtrace : Backtrace}

def guestOnly (formatter : Formatter) : Formatter :=
  { formatter with flags := { formatter.flags with interleaveNative := false } }

def ShowsAlone (formatter : Formatter) (exception : Option Exception) (backtrace : Backtrace) :
    Prop :=
  backtrace.activations = [] ∧ exception.isSome ∧ formatter.flags.omitException = false

theorem lines_of_not_showsAlone {exception : Option Exception}
    (h : ¬ formatter.ShowsAlone exception backtrace) :
    backtrace.activations = [] → exception = none ∨ formatter.flags.omitException := by
  intro hempty
  simp only [ShowsAlone, hempty, true_and, not_and, Bool.not_eq_false] at h
  cases exception with
  | none => exact .inl rfl
  | some e => exact .inr (h rfl)

theorem format_guestOnly {exception : Option Exception}
    (h : ¬ formatter.ShowsAlone exception backtrace) :
    formatter.guestOnly.format exception backtrace =
      formatter.lines exception true backtrace.activations := by
  have hplain : formatter.guestOnly.interleaves backtrace = false := rfl
  rw [format_eq_lines hplain (lines_of_not_showsAlone h), lines_eq, lines_eq]
  rfl

theorem format_interleaved {frames : List NativeFrame} (hon : formatter.flags.interleaveNative)
    (hnative : backtrace.native = some frames) {exception : Option Exception}
    (h : ¬ formatter.ShowsAlone exception backtrace) :
    formatter.format exception backtrace =
      interleave (formatter.lines exception true backtrace.activations) frames := by
  simp only [format, hnative, hon]
  split
  · next e halone =>
      simp only [Bool.and_eq_true, List.isEmpty_iff, Bool.not_eq_true'] at halone
      exact absurd ⟨halone.1, rfl, halone.2⟩ h
  · rfl

/-- With interleaving on, the frames of the host are merged with the lines that are shown without
them, of which there is one for each activation. The one exception is an exception that is shown
without any activation: it is the only line, so frames of the host are lost if there are any. -/
theorem native_frames_shown_iff {frames : List NativeFrame}
    (hon : formatter.flags.interleaveNative) (hnative : backtrace.native = some frames)
    (exception : Option Exception) :
    let guests := formatter.guestOnly.format exception backtrace
    let shown := formatter.format exception backtrace
    (IsMerge guests frames shown ↔ (formatter.ShowsAlone exception backtrace → frames = [])) ∧
      (¬ formatter.ShowsAlone exception backtrace →
        guests.length = backtrace.activations.length ∧ shown = interleave guests frames) ∧
      ∀ e, exception = some e → formatter.ShowsAlone exception backtrace → shown = [e.format] := by
  intro guests shown
  by_cases halone : formatter.ShowsAlone exception backtrace
  · obtain ⟨hempty, hgiven, hshown⟩ := id halone
    obtain ⟨e, rfl⟩ := Option.isSome_iff_exists.mp hgiven
    have honly : shown = [e.format] := format_empty hempty hshown e
    have hguestsShown : formatter.guestOnly.flags.omitException = false := hshown
    have hguests : guests = [e.format] := format_empty hempty hguestsShown e
    refine ⟨?_, fun h => absurd halone h, ?_⟩
    · rw [honly, hguests]
      constructor
      · intro hmerge _
        have hlength := hmerge.length_eq
        exact List.eq_nil_of_length_eq_zero (by simpa using hlength)
      · intro hnone
        rw [hnone halone]
        exact isMerge_interleave [e.format] []
    · rintro e' he -
      rw [honly, Option.some.inj he]
  · have hguests : guests = formatter.lines exception true backtrace.activations :=
      format_guestOnly halone
    have hshown : shown = interleave guests frames := by
      rw [hguests]
      exact format_interleaved hon hnative halone
    refine ⟨iff_of_true ?_ fun h => absurd h halone, fun _ => ⟨?_, hshown⟩,
      fun _ _ h => absurd h halone⟩
    · rw [hshown]
      exact isMerge_interleave guests frames
    · simp [hguests, lines_eq]

/-- The host calls into guest code twice, the second time for no line that is left. -/
private def calledByHost : Backtrace :=
  (Backtrace.ofFrames [⟨"<main>", .ruby, false, some ⟨"app.rb", 3⟩⟩] 0).withNative
    [⟨"raise", some "kernel.c", some 10, false⟩, ⟨"call_method", none, none, true⟩,
      ⟨"call_method", none, none, true⟩]

theorem native_frames_shown_iff_calledByHost :
    let formatter : Formatter := { flags := { interleaveNative := true } }
    let exception := some ⟨"IOError", "closed"⟩
    let shown := formatter.format exception calledByHost
    IsMerge ["app.rb:3:in '<main>': closed (IOError)"]
        [⟨"raise", some "kernel.c", some 10, false⟩, ⟨"call_method", none, none, true⟩,
          ⟨"call_method", none, none, true⟩] shown ∧
      shown = ["app.rb:3:in '<main>': closed (IOError)", "\t\traise (kernel.c:10)",
        "\t\tcall_method", "\t\tcall_method"] := by
  intro formatter exception shown
  have hshown : ¬ formatter.ShowsAlone exception calledByHost := fun h => absurd h.1 (by decide)
  obtain ⟨hmerge, hinterleave, -⟩ :=
    @native_frames_shown_iff formatter calledByHost _ rfl rfl exception
  exact ⟨hmerge.mpr fun h => absurd h hshown, (hinterleave hshown).2.trans (by decide)⟩

/-- An exception without a backtrace is shown without the frames of the host. -/
theorem lone_exception_hides_native_frames :
    let frame : NativeFrame := ⟨"main", none, none, false⟩
    let backtrace := (Backtrace.ofFrames [] 0).withNative [frame]
    let formatter : Formatter := { flags := { interleaveNative := true } }
    formatter.flags.interleaveNative ∧ backtrace.native = some [frame] ∧
      frame.nativeLine ∉ formatter.format (some ⟨"RuntimeError", "boom"⟩) backtrace := by
  decide

end Formatter

end RubyRuntime
