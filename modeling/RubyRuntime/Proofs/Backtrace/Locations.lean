import RubyRuntime.Proofs.Backtrace.Materialization

/-!
# Locations of the innermost frames

Guest code asks a backtrace for some number of locations. Each frame has one, which is looked for
among all activations outward of the frame, so the answer is a prefix of all locations: the number
that was asked for decides how many there are and nothing else. `lengthWord` is that number in the
arithmetic of 64-bit words; it never leaves the word.
-/
namespace RubyRuntime

namespace Activation

def name? : Activation → Option String
  | frame _ name _ => some name
  | _ => none

def frameNumbers (activations : List Activation) : List Nat :=
  (List.range activations.length).filter fun n => activations[n]?.any isFrame

theorem frameNumbers_cons (activation : Activation) (rest : List Activation) :
    frameNumbers (activation :: rest) =
      (if activation.isFrame then [0] else []) ++ (frameNumbers rest).map Nat.succ := by
  rw [frameNumbers, List.length_cons, List.range_succ_eq_map, List.filter_cons, List.filter_map]
  cases h : activation.isFrame <;> simp [h, frameNumbers, Function.comp_def]

theorem locations_cons (activation : Activation) (rest : List Activation) :
    locations (activation :: rest) =
      (location? (activation :: rest)).toList ++ locations rest := by
  cases activation <;> rfl

theorem map_some_locations (activations : List Activation) :
    (locations activations).map some =
      (frameNumbers activations).map fun n => location? (activations.drop n) := by
  induction activations with
  | nil => rfl
  | cons activation rest ih =>
      rw [locations_cons, frameNumbers_cons, List.map_append, List.map_append, List.map_map, ih]
      cases activation <;> rfl

theorem length_locations (activations : List Activation) :
    (locations activations).length = (activations.filter isFrame).length := by
  induction activations with
  | nil => rfl
  | cons activation rest ih =>
      rw [locations_cons, List.length_append, ih]
      cases activation with
      | frame callSite name language => exact Nat.add_comm _ _
      | omittedLimit => exact Nat.zero_add _
      | omittedUnused => exact Nat.zero_add _

theorem map_label_locations (activations : List Activation) :
    (locations activations).map Location.label = activations.filterMap name? := by
  induction activations with
  | nil => rfl
  | cons activation rest ih =>
      rw [locations_cons, List.map_append, ih]
      cases activation <;> rfl

end Activation

/-- Where a backtrace comes from: it is captured from frames, or will never be read. -/
inductive Capture where
  | stack (frames : List StackFrame) (omitted : Nat)
  | unused

namespace Capture

def backtrace : Capture → Backtrace
  | stack frames omitted => Backtrace.ofFrames frames omitted
  | unused => Backtrace.unused

def frames : Capture → List StackFrame
  | stack frames _ => frames
  | unused => []

def omitted : Capture → Nat
  | stack _ omitted => omitted
  | unused => 0

theorem omitted_along (capture : Capture) (uses : List BacktraceUse) :
    (capture.backtrace.along uses).omitted = capture.omitted := by
  rw [Backtrace.omitted_along]
  cases capture <;> rfl

theorem content_along (capture : Capture) (uses : List BacktraceUse) :
    (capture.backtrace.along uses).content =
      match capture with
      | stack frames omitted =>
        Materialized.ofFrames frames omitted (BacktraceUse.limitInEffect uses)
      | unused => ⟨[.omittedUnused], 0⟩ := by
  cases capture with
  | stack frames omitted => exact ((Backtrace.Built.start frames omitted).along uses).content_eq
  | unused => exact Backtrace.content_along rfl uses

theorem total_along (capture : Capture) (uses : List BacktraceUse) :
    (capture.backtrace.along uses).total = (Materialized.heeded capture.frames).length := by
  rw [Backtrace.total, content_along]
  cases capture with
  | stack frames omitted => exact congrArg Materialized.total (Materialized.ofFrames_eq _ _ _)
  | unused => rfl

end Capture

namespace Backtrace

theorem lengthOf_le (available : Nat) (length : Option Int) :
    lengthOf available length ≤ available := by
  cases length with
  | none => exact Nat.le_refl _
  | some k =>
      rw [lengthOf]
      split <;> omega

theorem lengthOf_of_neg {available : Nat} {k : Int} (h : k < 0) :
    (lengthOf available (some k) : Int) = max 0 (available + 1 + k) := by
  rw [lengthOf, if_pos h]
  omega

theorem lengthOf_of_nonneg {available : Nat} {k : Int} (h : 0 ≤ k) :
    (lengthOf available (some k) : Int) = min k available := by
  rw [lengthOf, if_neg (Int.not_lt.mpr h)]
  omega

def addWords? (a b : Int64) : Option Int64 :=
  if a.toBitVec.saddOverflow b.toBitVec then none else some (a + b)

/-- `lengthOf` computed with words alone; none as soon as a result does not fit. -/
def lengthWord (available : Int64) : Option Int64 → Option Int64
  | none => some available
  | some k =>
    if k < 0 then ((addWords? available 1).bind (addWords? · k)).map (max 0)
    else some (min k available)

private theorem toInt_minValue : Int64.minValue.toInt = -9223372036854775808 :=
  rfl

private theorem toInt_maxValue : Int64.maxValue.toInt = 9223372036854775807 :=
  rfl

theorem addWords?_of_fits {a b : Int64} (hlow : Int64.minValue.toInt ≤ a.toInt + b.toInt)
    (hhigh : a.toInt + b.toInt ≤ Int64.maxValue.toInt) :
    ∃ sum, addWords? a b = some sum ∧ sum.toInt = a.toInt + b.toInt := by
  rw [toInt_minValue] at hlow
  rw [toInt_maxValue] at hhigh
  have hfits : ¬ a.toBitVec.saddOverflow b.toBitVec := by
    simp only [BitVec.saddOverflow, Int64.toInt_toBitVec, Bool.or_eq_true, decide_eq_true_iff]
    omega
  exact ⟨a + b, if_neg hfits, BitVec.toInt_add_of_not_saddOverflow hfits⟩

private theorem toInt_max (a b : Int64) : (max a b).toInt = max a.toInt b.toInt := by
  have hmax : max a b = if a ≤ b then b else a := rfl
  rw [hmax, Int.max_def, apply_ite Int64.toInt]
  simp only [Int64.le_iff_toInt_le]

private theorem toInt_min (a b : Int64) : (min a b).toInt = min a.toInt b.toInt := by
  have hmin : min a b = if a ≤ b then a else b := rfl
  rw [hmin, Int.min_def, apply_ite Int64.toInt]
  simp only [Int64.le_iff_toInt_le]

/-- No length leads out of the word as long as the frames and one more can be counted in it. -/
theorem exists_lengthWord {available : Nat} (h : (available : Int) + 1 ≤ Int64.maxValue.toInt)
    (length : Option Int64) :
    ∃ n, lengthWord (Int64.ofNat available) length = some n ∧
      n.toInt = lengthOf available (length.map Int64.toInt) := by
  rw [toInt_maxValue] at h
  have havailable : (Int64.ofNat available).toInt = available :=
    Int64.toInt_ofNat_of_lt (by omega)
  cases length with
  | none => exact ⟨_, rfl, havailable⟩
  | some k =>
      rw [lengthWord, Option.map_some]
      by_cases hneg : k < 0
      · have hk : k.toInt < 0 := Int64.lt_iff_toInt_lt.mp hneg
        have hlow := k.le_toInt
        obtain ⟨next, hnext, hnextInt⟩ : ∃ next, addWords? (Int64.ofNat available) 1 = some next ∧
            next.toInt = available + 1 := by
          rw [← havailable]
          refine addWords?_of_fits ?_ ?_ <;>
            simp only [havailable, Int64.toInt_one, toInt_minValue, toInt_maxValue] <;> omega
        obtain ⟨sum, hsum, hsumInt⟩ : ∃ sum, addWords? next k = some sum ∧
            sum.toInt = next.toInt + k.toInt := by
          refine addWords?_of_fits ?_ ?_ <;> simp only [toInt_minValue, toInt_maxValue] <;> omega
        refine ⟨max 0 sum, ?_, ?_⟩
        · rw [if_pos hneg, hnext, Option.bind_some, hsum, Option.map_some]
        · rw [lengthOf_of_neg hk, ← hnextInt, ← hsumInt, toInt_max]
          rfl
      · have hk : 0 ≤ k.toInt := Int64.le_iff_toInt_le.mp (Int64.not_lt.mp hneg)
        refine ⟨min k (Int64.ofNat available), if_neg hneg, ?_⟩
        rw [lengthOf_of_nonneg hk, ← havailable, toInt_min]

theorem lengthWord_eq {available : Nat} (h : (available : Int) + 1 ≤ Int64.maxValue.toInt)
    (length : Option Int64) :
    (lengthWord (Int64.ofNat available) length).map (·.toUInt64.toNat) =
      some (lengthOf available (length.map Int64.toInt)) := by
  obtain ⟨n, hn, heq⟩ := exists_lengthWord h length
  have hnonneg : 0 ≤ n := Int64.le_iff_toInt_le.mpr (heq ▸ Int.natCast_nonneg _)
  rw [hn, Option.map_some, Int64.toNat_toUInt64_of_le hnonneg, Int64.toNatClampNeg, heq,
    Int.toNat_natCast]

/-- Without as many frames as were to be omitted there are no locations to ask for. -/
theorem locations?_eq_none_iff {backtrace : Backtrace} {length : Option Int} :
    backtrace.locations? length = none ↔ backtrace.total < backtrace.omitted := by
  rw [locations?]
  split <;> simp_all

theorem locations?_eq_some {backtrace : Backtrace} (h : backtrace.omitted ≤ backtrace.total)
    (length : Option Int) :
    backtrace.locations? length = some ((Activation.locations backtrace.activations).take
      (lengthOf (backtrace.activations.filter Activation.isFrame).length length)) := by
  rw [locations?, if_neg (Nat.not_lt.mpr h)]

theorem locations_eq {backtrace : Backtrace} (h : backtrace.omitted ≤ backtrace.total) :
    backtrace.locations = Activation.locations backtrace.activations := by
  rw [locations, locations?_eq_some h, lengthOf, ← Activation.length_locations, List.take_length]
  rfl

/-- A backtrace, whatever its capture and its uses, has no locations for any length exactly if more
frames were to be omitted than are not ignored. Otherwise the answer is a prefix of all locations,
of which there is one for each frame and none for a marker: all of them without a length, at most as
many as a natural length says, and all but the last `-k - 1` for a negative length `k`. The location
of a frame is found from that frame outward, past the end of the prefix, and does not depend on the
length; its label is the frame's name. The number of locations is computed in a word without
overflow as long as the frames and one more can be counted in it, and memory ends long before. -/
theorem innermost_locations (capture : Capture) (uses : List BacktraceUse)
    (length : Option Int64) :
    let backtrace := capture.backtrace.along uses
    let activations := backtrace.activations
    let available := (activations.filter Activation.isFrame).length
    (backtrace.locations? (length.map Int64.toInt) = none ↔
        (Materialized.heeded capture.frames).length < capture.omitted) ∧
      (capture.omitted ≤ (Materialized.heeded capture.frames).length →
        backtrace.locations.length = available ∧
        ∃ found, backtrace.locations? (length.map Int64.toInt) = some found ∧
          found <+: backtrace.locations ∧
          (length = none → found = backtrace.locations) ∧
          (∀ k, length = some k → 0 ≤ k → (found.length : Int) = min k.toInt available) ∧
          (∀ k, length = some k → k < 0 →
            (found.length : Int) = max 0 (available + 1 + k.toInt)) ∧
          found.map some = ((Activation.frameNumbers activations).take found.length).map
            (fun n => Activation.location? (activations.drop n)) ∧
          found.map Location.label =
            (activations.filterMap Activation.name?).take found.length ∧
          ((available : Int) + 1 ≤ Int64.maxValue.toInt →
            (lengthWord (Int64.ofNat available) length).map (·.toUInt64.toNat) =
              some found.length)) := by
  intro backtrace activations available
  have homitted : backtrace.omitted = capture.omitted := capture.omitted_along uses
  have htotal : backtrace.total = _ := capture.total_along uses
  rw [locations?_eq_none_iff, homitted, htotal]
  refine ⟨Iff.rfl, fun henough => ?_⟩
  rw [← homitted, ← htotal] at henough
  have hall := locations_eq henough
  have hlength : ((Activation.locations activations).take
      (lengthOf available (length.map Int64.toInt))).length =
        lengthOf available (length.map Int64.toInt) := by
    rw [List.length_take, Activation.length_locations]
    exact Nat.min_eq_left (lengthOf_le _ _)
  refine ⟨by rw [hall, Activation.length_locations], _, locations?_eq_some henough _, ?_⟩
  rw [hall, hlength]
  refine ⟨List.take_prefix _ _, ?_, ?_, ?_, ?_, ?_, ?_⟩
  · rintro rfl
    exact (Activation.length_locations activations) ▸ List.take_length
  · rintro k rfl hk
    exact lengthOf_of_nonneg (Int64.le_iff_toInt_le.mp hk)
  · rintro k rfl hk
    exact lengthOf_of_neg (Int64.lt_iff_toInt_lt.mp hk)
  · rw [List.map_take, Activation.map_some_locations, List.map_take]
  · rw [List.map_take, Activation.map_label_locations]
  · exact fun hfits => lengthWord_eq hfits length

private def coreCall : Capture := .stack [
  ⟨"each", .ruby, false, some ⟨"<internal:core> array.rb", 5⟩⟩, ⟨"dispatch", .internal, true, none⟩,
  ⟨"block", .ruby, false, none⟩, ⟨"run", .ruby, false, some ⟨"app.rb", 7⟩⟩,
  ⟨"<main>", .ruby, false, some ⟨"app.rb", 10⟩⟩] 0

private def limitedRead : List BacktraceUse :=
  [.build (.limit (some 3)), .ask {} .activations]

theorem innermost_locations_coreCall :
    let backtrace := coreCall.backtrace.along limitedRead
    coreCall.omitted ≤ (Materialized.heeded coreCall.frames).length ∧
      backtrace.activations.length = 4 ∧ backtrace.locations.length = 3 ∧
      (∃ found, backtrace.locations? (some (-3)) = some found ∧ found.length = 1 ∧
        found.map some = [some ⟨"app.rb", 7, "each"⟩]) ∧
      ∃ found, backtrace.locations? (some Int64.minValue.toInt) = some found ∧ found.length = 0 ∧
        (lengthWord 3 (some Int64.minValue)).map (·.toUInt64.toNat) = some found.length := by
  intro backtrace
  have henough : coreCall.omitted ≤ (Materialized.heeded coreCall.frames).length := by decide
  have havailable : (backtrace.activations.filter Activation.isFrame).length = 3 := by decide
  obtain ⟨hall, found, hfound, -, -, -, hneg, hat, -⟩ :=
    (innermost_locations coreCall limitedRead (some (-3))).2 henough
  obtain ⟨-, least, hleast, -, -, -, hleastNeg, -, -, hword⟩ :=
    (innermost_locations coreCall limitedRead (some Int64.minValue)).2 henough
  have hone : found.length = 1 := by
    have hcount := hneg (-3) rfl (by decide)
    rw [havailable] at hcount
    exact Int.ofNat_inj.mp hcount
  have hzero : least.length = 0 := by
    have hcount := hleastNeg _ rfl (by decide)
    rw [havailable] at hcount
    exact Int.ofNat_inj.mp hcount
  refine ⟨henough, by decide, hall.trans havailable, ⟨found, hfound, hone, ?_⟩, ?_⟩
  · rw [hat, hone]
    decide
  · refine ⟨least, hleast, hzero, ?_⟩
    rw [havailable] at hword
    exact hword (by decide)

end Backtrace

end RubyRuntime
