import Mathlib.Data.List.DropRight
import RubyRuntime.Session.StackOps

/-!
# What a backtrace shows

A backtrace is captured from frames, built on and read in any order, and the first read fixes its
activations. `Materialized.pipeline` says in five steps what they should be. Main result: over every
sequence of uses the activations are those of the pipeline with the limit that was set last before
the first read, and whether that read came early or late makes no difference to any answer.
-/
namespace RubyRuntime

namespace Materialized

def heeded (frames : List StackFrame) : List StackFrame :=
  frames.filter (!·.ignored)

/-- Drops the ignored frames, then the innermost `omitted` ones, keeps those that are Ruby code or
have a location, removes the outermost ones without a location, and cuts what is longer than the
limit, marking the cut. -/
def pipeline (frames : List StackFrame) (omitted : Nat) (limit : Option Nat) : List Activation :=
  let kept := ((heeded frames).drop omitted).filter fun frame =>
    frame.language == .ruby || frame.location.isSome
  let located := (kept.map fun frame => Activation.frame frame.location frame.name frame.language)
    |>.rdropWhile (·.callSite.isNone)
  match limit with
  | none => located
  | some limit => if located.length ≤ limit then located else located.take limit ++ [.omittedLimit]

theorem heeded_cons (frame : StackFrame) (rest : List StackFrame) :
    heeded (frame :: rest) = if frame.ignored then heeded rest else frame :: heeded rest := by
  cases h : frame.ignored <;> simp [heeded, h]

theorem total_collect (omitted seen : Nat) (frames : List StackFrame) :
    (collect omitted seen frames).total = seen + (heeded frames).length := by
  induction frames generalizing seen with
  | nil => rfl
  | cons frame rest ih =>
      rw [collect, heeded_cons]
      split
      · exact ih seen
      · have hwalked := ih (seen + 1)
        rw [Nat.add_right_comm] at hwalked
        dsimp only
        split
        · exact hwalked
        · split <;> exact hwalked

theorem activations_collect (omitted seen : Nat) (frames : List StackFrame) :
    (collect omitted seen frames).activations =
      (((heeded frames).drop (omitted - seen)).filter fun frame =>
        frame.language == .ruby || frame.location.isSome).map
          fun frame => .frame frame.location frame.name frame.language := by
  induction frames generalizing seen with
  | nil => simp [collect, heeded]
  | cons frame rest ih =>
      rw [collect, heeded_cons]
      split
      · exact ih seen
      · by_cases homit : seen + 1 ≤ omitted
        · obtain ⟨left, hleft⟩ : ∃ left, omitted - seen = left + 1 := ⟨omitted - seen - 1, by omega⟩
          have hrest : omitted - (seen + 1) = left := by omega
          simp only [if_pos homit]
          rw [ih, hrest, hleft, List.drop_succ_cons]
        · have hnone : omitted - seen = 0 := by omega
          have hrest := ih (seen + 1)
          rw [show omitted - (seen + 1) = 0 by omega] at hrest
          simp only [if_neg homit]
          rw [hnone, List.drop_zero, List.filter_cons]
          split <;> simp_all

theorem trimUnlocated_eq (activations : List Activation) :
    trimUnlocated activations = activations.rdropWhile (·.callSite.isNone) := by
  induction activations with
  | nil => rfl
  | cons activation rest ih =>
      rw [trimUnlocated, ih, List.rdropWhile, List.rdropWhile, List.reverse_cons,
        List.dropWhile_append]
      cases hrest : rest.reverse.dropWhile (·.callSite.isNone) with
      | nil => cases h : activation.callSite.isNone <;> simp [h]
      | cons outer others =>
          obtain ⟨first, more, hkept⟩ : ∃ first more, (outer :: others).reverse = first :: more :=
            List.exists_cons_of_ne_nil (by simp)
          rw [List.isEmpty_cons, if_neg Bool.false_ne_true, List.reverse_append, hkept]
          rfl

theorem ofFrames_eq (frames : List StackFrame) (omitted : Nat) (limit : Option Nat) :
    ofFrames frames omitted limit =
      ⟨pipeline frames omitted limit, (heeded frames).length⟩ := by
  rw [ofFrames, activations_collect, total_collect, trimUnlocated_eq, Nat.sub_zero, Nat.zero_add]
  cases limit with
  | none => rfl
  | some limit =>
      simp only [cut, pipeline]
      split
      · next hlong => rw [if_neg (by omega)]
      · next hshort => rw [if_pos (by omega)]

end Materialized

theorem Backtrace.content_of_cached {backtrace : Backtrace} {kept : Materialized}
    (h : backtrace.cached = some kept) : backtrace.content = kept := by
  rw [content, h]
  rfl

open Session

/-- Something done with a backtrace: it is built on, or asked a question. -/
inductive BacktraceUse where
  | build (build : Build)
  | ask (base : Formatter) (question : Question)

namespace BacktraceUse

def apply (backtrace : Backtrace) : BacktraceUse → Backtrace
  | build b => b.apply backtrace
  | ask base question => (askAll base backtrace [question]).2

def materializes : BacktraceUse → Bool
  | build .eager => true
  | build _ => false
  | ask _ question => question.isRead

def limit? : BacktraceUse → Option (Option Nat)
  | build (.limit bound) => some bound
  | _ => none

def exception? : BacktraceUse → Option Exception
  | build (.exception e) => some e
  | _ => none

def native? : BacktraceUse → Option (List NativeFrame)
  | build (.native frames) => some frames
  | _ => none

def lastSet {α : Type} (set? : BacktraceUse → Option α) (uses : List BacktraceUse) : Option α :=
  (uses.filterMap set?).getLast?

def limitInEffect (uses : List BacktraceUse) : Option Nat :=
  (lastSet limit? (uses.takeWhile (!·.materializes))).join

/-- Both sequences of uses give a backtrace the same to work from. -/
structure SameInputs (uses others : List BacktraceUse) : Prop where
  limit_eq : limitInEffect uses = limitInEffect others
  exception_eq : lastSet exception? uses = lastSet exception? others
  native_eq : lastSet native? uses = lastSet native? others

theorem apply_ask (base : Formatter) (question : Question) (backtrace : Backtrace) :
    (ask base question).apply backtrace =
      if question.isRead then backtrace.force else backtrace := by
  simp only [apply, askAll]
  split <;> rfl

theorem omitted_apply (use : BacktraceUse) (backtrace : Backtrace) :
    (use.apply backtrace).omitted = backtrace.omitted := by
  cases use with
  | build b => cases b <;> rfl
  | ask base question =>
      rw [apply_ask]
      split <;> rfl

theorem cached_apply {backtrace : Backtrace} {kept : Materialized}
    (h : backtrace.cached = some kept) (use : BacktraceUse) :
    (use.apply backtrace).cached = some kept := by
  have hcontent := Backtrace.content_of_cached h
  cases use with
  | build b =>
      cases b with
      | limit bound => exact h
      | exception e => exact h
      | native frames => exact h
      | eager => exact congrArg some hcontent
  | ask base question =>
      rw [apply_ask]
      split
      · exact congrArg some hcontent
      · exact h

theorem lastSet_append {α : Type} (set? : BacktraceUse → Option α) (uses : List BacktraceUse)
    (use : BacktraceUse) :
    lastSet set? (uses ++ [use]) = (set? use).or (lastSet set? uses) := by
  rw [lastSet, List.filterMap_append]
  cases h : set? use <;> simp [lastSet, h]

/-- The first use that needs the activations fixes the limit. -/
theorem limitInEffect_append {uses : List BacktraceUse} (h : uses.any materializes)
    (later : List BacktraceUse) : limitInEffect (uses ++ later) = limitInEffect uses := by
  obtain ⟨use, hmem, huse⟩ := List.any_eq_true.mp h
  have hlength : (uses.takeWhile (!·.materializes)).length ≠ uses.length := by
    intro heq
    have hall := (List.takeWhile_prefix _).eq_of_length heq
    have hpending := List.mem_takeWhile_imp (hall ▸ hmem)
    simp [huse] at hpending
  rw [limitInEffect, List.takeWhile_append, if_neg hlength, limitInEffect]

theorem limit?_of_materializes {use : BacktraceUse} (h : use.materializes) : use.limit? = none :=
  match use, h with
  | build .eager, _ => rfl
  | ask _ _, _ => rfl

theorem limitInEffect_append_pending {uses : List BacktraceUse} (h : uses.any materializes = false)
    (use : BacktraceUse) :
    limitInEffect (uses ++ [use]) = use.limit?.getD (limitInEffect uses) := by
  have hpending : ∀ use ∈ uses, !use.materializes := by simpa using h
  have huses : uses.takeWhile (!·.materializes) = uses := List.takeWhile_eq_self_iff.mpr hpending
  rw [limitInEffect, limitInEffect, List.takeWhile_append_of_pos hpending, huses]
  cases huse : use.materializes with
  | true => simp [huse, limit?_of_materializes huse]
  | false =>
      simp only [List.takeWhile_cons, huse, Bool.not_false, if_true, List.takeWhile_nil,
        lastSet_append]
      cases use.limit? <;> rfl

end BacktraceUse

open BacktraceUse

namespace Backtrace

def along (backtrace : Backtrace) (uses : List BacktraceUse) : Backtrace :=
  uses.foldl BacktraceUse.apply backtrace

theorem omitted_along (backtrace : Backtrace) (uses : List BacktraceUse) :
    (backtrace.along uses).omitted = backtrace.omitted := by
  induction uses generalizing backtrace with
  | nil => rfl
  | cons use rest ih => exact (ih (use.apply backtrace)).trans (use.omitted_apply backtrace)

theorem content_along {backtrace : Backtrace} {kept : Materialized}
    (h : backtrace.cached = some kept) (uses : List BacktraceUse) :
    (backtrace.along uses).content = kept := by
  induction uses generalizing backtrace with
  | nil => exact content_of_cached h
  | cons use rest ih => exact ih (cached_apply h use)

/-- A backtrace after some uses since its capture: it has what was set last, and the activations
for the limit in effect are either kept or still to be made. -/
structure Built (frames : List StackFrame) (omitted : Nat) (uses : List BacktraceUse)
    (backtrace : Backtrace) : Prop where
  omitted_eq : backtrace.omitted = omitted
  exception_eq : backtrace.exception = lastSet exception? uses
  native_eq : backtrace.native = lastSet native? uses
  cached_eq : backtrace.cached =
    if uses.any materializes then
      some (Materialized.ofFrames frames omitted (limitInEffect uses))
    else none
  pending : uses.any materializes = false →
    backtrace.frames = frames ∧ backtrace.limit = limitInEffect uses

namespace Built

variable {frames : List StackFrame} {omitted : Nat} {uses : List BacktraceUse}
  {backtrace : Backtrace}

theorem start (frames : List StackFrame) (omitted : Nat) :
    Built frames omitted [] (Backtrace.ofFrames frames omitted) where
  omitted_eq := rfl
  exception_eq := rfl
  native_eq := rfl
  cached_eq := rfl
  pending := fun _ => ⟨rfl, rfl⟩

theorem isMaterialized_eq (h : Built frames omitted uses backtrace) :
    backtrace.isMaterialized = uses.any materializes := by
  rw [isMaterialized, h.cached_eq]
  cases uses.any materializes <;> rfl

theorem content_eq (h : Built frames omitted uses backtrace) :
    backtrace.content = Materialized.ofFrames frames omitted (limitInEffect uses) := by
  rw [content, h.cached_eq, h.omitted_eq]
  cases hread : uses.any materializes with
  | true => rfl
  | false =>
      obtain ⟨hframes, hlimit⟩ := h.pending hread
      rw [hframes, hlimit]
      rfl

theorem force (h : Built frames omitted uses backtrace) (use : BacktraceUse)
    (huse : use.materializes) (hexception : use.exception? = none) (hnative : use.native? = none)
    (kept : List StackFrame) :
    Built frames omitted (uses ++ [use]) { backtrace.force with frames := kept } where
  omitted_eq := h.omitted_eq
  exception_eq := by
    rw [lastSet_append, hexception]
    exact h.exception_eq
  native_eq := by
    rw [lastSet_append, hnative]
    exact h.native_eq
  cached_eq := by
    have hlimit : limitInEffect (uses ++ [use]) = limitInEffect uses := by
      cases hread : uses.any materializes with
      | true => exact limitInEffect_append hread [use]
      | false =>
          rw [limitInEffect_append_pending hread, limit?_of_materializes huse]
          rfl
    rw [hlimit, ← h.content_eq]
    simp [huse, Backtrace.force]
  pending := by simp [huse]

theorem set (h : Built frames omitted uses backtrace) (use : BacktraceUse)
    (huse : use.materializes = false) :
    Built frames omitted (uses ++ [use])
      { backtrace with
        limit := use.limit?.getD backtrace.limit
        exception := use.exception?.or backtrace.exception
        native := use.native?.or backtrace.native } where
  omitted_eq := h.omitted_eq
  exception_eq := by
    rw [lastSet_append, ← h.exception_eq]
  native_eq := by
    rw [lastSet_append, ← h.native_eq]
  cached_eq := by
    rw [List.any_append, List.any_cons, huse]
    cases hread : uses.any materializes with
    | true =>
        rw [limitInEffect_append hread]
        simpa [hread] using h.cached_eq
    | false => simpa [hread] using h.cached_eq
  pending := by
    intro hread
    have hpending : uses.any materializes = false := by
      rw [List.any_append, Bool.or_eq_false_iff] at hread
      exact hread.1
    obtain ⟨hframes, hlimit⟩ := h.pending hpending
    rw [limitInEffect_append_pending hpending, ← hlimit]
    exact ⟨hframes, rfl⟩

theorem step (h : Built frames omitted uses backtrace) (use : BacktraceUse) :
    Built frames omitted (uses ++ [use]) (use.apply backtrace) := by
  cases use with
  | build b =>
      cases b with
      | limit bound => exact h.set _ rfl
      | exception e => exact h.set _ rfl
      | native frames => exact h.set _ rfl
      | eager => exact h.force _ rfl rfl rfl []
  | ask base question =>
      rw [apply_ask]
      split
      · next hread => exact h.force (ask base question) hread rfl rfl backtrace.frames
      · next hread => exact h.set (ask base question) (Bool.eq_false_iff.mpr hread)

theorem along (h : Built frames omitted uses backtrace) (later : List BacktraceUse) :
    Built frames omitted (uses ++ later) (backtrace.along later) := by
  induction later generalizing uses backtrace with
  | nil =>
      rw [List.append_nil]
      exact h
  | cons use rest ih =>
      have hrest := ih (h.step use)
      rw [List.append_assoc] at hrest
      exact hrest

end Built

end Backtrace

/-- Apart from whether it has been read, an answer depends on what a read sees and on what is
attached to the backtrace. -/
theorem Session.Question.answer_congr {question : Question} (hquestion : question ≠ .materialized)
    (base : Formatter) {backtrace other : Backtrace} (hcontent : backtrace.content = other.content)
    (homitted : backtrace.omitted = other.omitted)
    (hexception : backtrace.exception = other.exception)
    (hnative : backtrace.native = other.native) :
    question.answer base backtrace = question.answer base other := by
  have hactivations : backtrace.activations = other.activations :=
    congrArg Materialized.activations hcontent
  have htotal : backtrace.total = other.total := congrArg Materialized.total hcontent
  have hlocations : backtrace.locations? = other.locations? := by
    funext length
    rw [Backtrace.locations?, Backtrace.locations?, homitted, htotal, hactivations]
  cases question with
  | materialized => exact absurd rfl hquestion
  | total => rw [answer, answer, htotal]
  | omitted => rw [answer, answer, homitted]
  | exception => rw [answer, answer, hexception]
  | native => rw [answer, answer, hnative]
  | activations => rw [answer, answer, hactivations]
  | allLocations => rw [answer, answer, Backtrace.locations, Backtrace.locations, hlocations]
  | locations length => rw [answer, answer, hlocations]
  | format spec given ownException =>
      simp only [answer, Formatter.format, hactivations, hexception, hnative]
  | line n spec given => rw [answer, answer, hactivations]

namespace Backtrace

/-- Over every sequence of uses, a backtrace shows the activations of the pipeline for the limit
that was in effect when they were first needed, and counts the frames that are not ignored; once
they have been needed, no use changes either. Reading at once, or in any other order of uses that
gives the same inputs, changes no answer but whether the backtrace has been read. -/
theorem reads_follow_pipeline (frames : List StackFrame) (omitted : Nat)
    (uses : List BacktraceUse) :
    let backtrace := (Backtrace.ofFrames frames omitted).along uses
    backtrace.activations = Materialized.pipeline frames omitted (limitInEffect uses) ∧
      backtrace.total = (Materialized.heeded frames).length ∧
      backtrace.isMaterialized = uses.any materializes ∧
      (backtrace.isMaterialized → ∀ later,
        (backtrace.along later).activations = backtrace.activations ∧
          (backtrace.along later).total = backtrace.total) ∧
      (∀ base, ∀ question ≠ Question.materialized,
        question.answer base backtrace.eager = question.answer base backtrace) ∧
      ∀ others, SameInputs uses others → ∀ base, ∀ question ≠ Question.materialized,
        question.answer base ((Backtrace.ofFrames frames omitted).along others) =
          question.answer base backtrace := by
  intro backtrace
  have h : Built frames omitted uses backtrace := (Built.start frames omitted).along uses
  have hcontent := h.content_eq.trans (Materialized.ofFrames_eq _ _ _)
  refine ⟨congrArg _ hcontent, congrArg _ hcontent, h.isMaterialized_eq, ?_, ?_, ?_⟩
  · intro hread later
    obtain ⟨kept, hkept⟩ := Option.isSome_iff_exists.mp hread
    have hlater : (backtrace.along later).content = backtrace.content :=
      (content_along hkept later).trans (content_of_cached hkept).symm
    exact ⟨congrArg Materialized.activations hlater, congrArg Materialized.total hlater⟩
  · intro base question hquestion
    exact Question.answer_congr hquestion base rfl rfl rfl rfl
  · intro others hsame base question hquestion
    have hother := (Built.start frames omitted).along others
    refine Question.answer_congr hquestion base ?_ ?_ ?_ ?_
    · rw [h.content_eq, hsame.limit_eq]
      exact hother.content_eq
    · rw [h.omitted_eq]
      exact hother.omitted_eq
    · rw [h.exception_eq, hsame.exception_eq]
      exact hother.exception_eq
    · rw [h.native_eq, hsame.native_eq]
      exact hother.native_eq

private def mixedFrames : List StackFrame := [
  ⟨"inner", .ruby, false, some ⟨"app.rb", 3⟩⟩, ⟨"dispatch", .internal, true, none⟩,
  ⟨"middle", .ruby, false, some ⟨"app.rb", 7⟩⟩, ⟨"each", .ruby, false, none⟩,
  ⟨"host", .foreign, false, none⟩, ⟨"<main>", .ruby, false, some ⟨"app.rb", 10⟩⟩,
  ⟨"boot", .ruby, false, none⟩]

private def readEarly : List BacktraceUse := [
  .build (.limit (some 5)), .build (.limit (some 2)), .build .eager, .build (.limit (some 0)),
  .build (.exception ⟨"RuntimeError", "oops"⟩)]

private def readLate : List BacktraceUse := [
  .build (.exception ⟨"RuntimeError", "oops"⟩), .build (.limit (some 2)), .ask {} .omitted,
  .ask {} .total, .build (.limit none)]

theorem reads_follow_pipeline_earlyAndLate :
    let early := (Backtrace.ofFrames mixedFrames 1).along readEarly
    let late := (Backtrace.ofFrames mixedFrames 1).along readLate
    early.activations = [.frame (some ⟨"app.rb", 7⟩) "middle" .ruby, .frame none "each" .ruby,
        .omittedLimit] ∧
      early.total = 6 ∧ early.isMaterialized ∧
      (early.along [.build (.limit none)]).activations = early.activations ∧
      SameInputs readEarly readLate ∧
      Question.answer {} early.eager .total = Question.answer {} early .total ∧
      Question.answer {} late .activations = Question.answer {} early .activations := by
  intro early late
  obtain ⟨hactivations, htotal, hread, hkept, heager, hsame⟩ :=
    reads_follow_pipeline mixedFrames 1 readEarly
  have hinputs : SameInputs readEarly readLate := ⟨rfl, rfl, rfl⟩
  refine ⟨hactivations.trans (by decide), htotal, hread, (hkept hread _).1, hinputs, ?_, ?_⟩
  · exact heager {} .total (by simp)
  · exact hsame readLate hinputs {} .activations (by simp)

end Backtrace

end RubyRuntime
