import Mathlib.Logic.Basic
import RubyRuntime.ObjectId

/-!
# Ids and what they stand for

`Identified.id` and `decode` are inverse to each other: an id is decoded exactly to what has it, and
every id that is decoded is the id of what it is decoded to. So no two immediates share an id, and
none has an id of the counter. `decodeWord` is `decode` in the arithmetic of 128-bit words; it never
leaves the word.
-/
namespace RubyRuntime.ObjectId

private theorem pow_64 : Int.pow 2 64 = 18446744073709551616 :=
  rfl

theorem isSmall_iff {n : Int} :
    isSmall n ↔ -4611686018427387904 ≤ n ∧ n < 4611686018427387904 := by
  have hpow : Int.pow 2 62 = 4611686018427387904 := rfl
  rw [isSmall, Bool.and_eq_true, decide_eq_true_iff, decide_eq_true_iff, hpow]

private theorem isCounterId_iff_mod {raw : Int} :
    isCounterId raw ↔ 8 < raw ∧ raw < 18446744073709551616 ∧ (raw - 8) % 16 = 0 := by
  have hbound : wordBound = 18446744073709551616 := rfl
  rw [isCounterId, Bool.and_eq_true, Bool.and_eq_true, decide_eq_true_iff, decide_eq_true_iff,
    beq_iff_eq, and_assoc, hbound]
  rfl

theorem isCounterId_iff {raw : Int} :
    isCounterId raw ↔ ∃ k, 1 ≤ k ∧ raw = counterStart + counterStride * k ∧ raw < wordBound := by
  have hbound : wordBound = 18446744073709551616 := rfl
  simp only [isCounterId_iff_mod, counterStart, counterStride, hbound]
  constructor
  · rintro ⟨hstart, hlt, hstride⟩
    exact ⟨(raw - 8) / 16, by omega, by omega, hlt⟩
  · rintro ⟨k, hk, hraw, hlt⟩
    exact ⟨by omega, hlt, by omega⟩

section Regions

variable {raw : Int}

theorem decode_large (htag : raw / Int.pow 2 64 = 1) :
    decode raw = if isSmall (Int64.ofInt (raw % Int.pow 2 64)).toInt then none
      else some (.fixnum (Int64.ofInt (raw % Int.pow 2 64))) := by
  unfold decode falseId nilId trueId
  rw [if_neg, if_neg, if_neg, if_pos htag]
  all_goals
    rw [pow_64] at htag
    omega

theorem decode_float (htag : raw / Int.pow 2 64 = 2) :
    decode raw = some (.float (UInt64.ofNat (raw % Int.pow 2 64).toNat)) := by
  unfold decode falseId nilId trueId
  rw [if_neg, if_neg, if_neg, if_neg, if_pos htag]
  all_goals
    rw [pow_64] at *
    omega

theorem decode_odd (hlarge : raw / Int.pow 2 64 ≠ 1) (hfloat : raw / Int.pow 2 64 ≠ 2)
    (hodd : raw % 2 = 1) :
    decode raw = if isSmall ((raw - 1) / 2) then some (.fixnum (Int64.ofInt ((raw - 1) / 2)))
      else none := by
  unfold decode falseId nilId trueId
  rw [if_neg, if_neg, if_neg, if_neg hlarge, if_neg hfloat, if_pos hodd]
  all_goals omega

theorem decode_even (hfalse : raw ≠ falseId) (hnil : raw ≠ nilId) (htrue : raw ≠ trueId)
    (hlarge : raw / Int.pow 2 64 ≠ 1) (hfloat : raw / Int.pow 2 64 ≠ 2) (heven : raw % 2 ≠ 1) :
    decode raw = if isCounterId raw then some (.counter raw.toNat) else none := by
  unfold decode
  rw [if_neg hfalse, if_neg hnil, if_neg htrue, if_neg hlarge, if_neg hfloat, if_neg heven]

end Regions

private theorem ofInt_emod (n : Int64) : Int64.ofInt (n.toInt % Int.pow 2 64) = n := by
  apply Int64.toInt_inj.mp
  have hlow := n.le_toInt
  have hhigh := n.toInt_lt
  rw [Int64.toInt_ofInt, Int.bmod_def, pow_64, Int64.size]
  omega

private theorem toInt_ofInt_emod (raw : Int) :
    (Int64.ofInt (raw % Int.pow 2 64)).toInt % Int.pow 2 64 = raw % Int.pow 2 64 := by
  rw [Int64.toInt_ofInt, Int.bmod_def, pow_64, Int64.size]
  omega

private theorem toInt_ofInt_of_small {n : Int} (h : isSmall n) : (Int64.ofInt n).toInt = n := by
  rw [isSmall_iff] at h
  exact Int64.toInt_ofInt_of_le (by omega) (by omega)

/-- Whether the counter can have handed out the id, if it is said to be one of its ids. -/
def Identified.IsPossible : Identified → Prop
  | .counter id => isCounterId id
  | _ => True

theorem decode_id {d : Identified} (h : d.IsPossible) : decode d.id = some d := by
  cases d with
  | nil => rfl
  | boolean b => cases b <;> rfl
  | fixnum n =>
      by_cases hsmall : isSmall n.toInt
      · have hbounds := isSmall_iff.mp hsmall
        have hhalf : (2 * n.toInt + 1 - 1) / 2 = n.toInt := by omega
        have hnext : (2 * n.toInt + 1) / Int.pow 2 64 < 1 := by
          rw [pow_64]
          omega
        rw [Identified.id, if_pos hsmall, decode_odd, hhalf, if_pos hsmall, Int64.ofInt_toInt]
        all_goals omega
      · have htag : (Int.pow 2 64 + n.toInt % Int.pow 2 64) / Int.pow 2 64 = 1 := by
          rw [pow_64]
          omega
        have hpattern : (Int.pow 2 64 + n.toInt % Int.pow 2 64) % Int.pow 2 64 =
            n.toInt % Int.pow 2 64 := by
          rw [pow_64]
          omega
        rw [Identified.id, if_neg hsmall, decode_large htag, hpattern, ofInt_emod, if_neg hsmall]
  | float bits =>
      have hbits := bits.toNat_lt
      have hpow : Int.pow 2 65 = 36893488147419103232 := rfl
      have htag : (Int.pow 2 65 + bits.toNat) / Int.pow 2 64 = 2 := by
        rw [pow_64, hpow]
        omega
      have hpattern : (Int.pow 2 65 + bits.toNat) % Int.pow 2 64 = bits.toNat := by
        rw [pow_64, hpow]
        omega
      rw [Identified.id, decode_float htag, hpattern, Int.toNat_natCast, UInt64.ofNat_toNat]
  | counter id =>
      -- Ids of the counter are even and too small to carry a tag.
      have hcounter : isCounterId id := h
      obtain ⟨k, hk, hid, hbound⟩ := isCounterId_iff.mp hcounter
      have hword : wordBound = 18446744073709551616 := rfl
      simp only [counterStart, counterStride, hword] at hid hbound
      have hother : (id : Int) ≠ falseId ∧ (id : Int) ≠ nilId ∧ (id : Int) ≠ trueId := by
        simp only [falseId, nilId, trueId]
        omega
      have htag : (id : Int) / Int.pow 2 64 < 1 := by
        rw [pow_64]
        omega
      rw [Identified.id, decode_even hother.1 hother.2.1 hother.2.2 (by omega) (by omega)
        (by omega), if_pos hcounter, Int.toNat_natCast]

theorem id_of_decode {raw : Int} {d : Identified} (h : decode raw = some d) :
    d.id = raw ∧ d.IsPossible := by
  -- The cases are the regions of `decode`, in the order in which it tries them.
  by_cases hfalse : raw = falseId
  · subst hfalse
    cases h
    exact ⟨rfl, trivial⟩
  by_cases hnil : raw = nilId
  · subst hnil
    cases h
    exact ⟨rfl, trivial⟩
  by_cases htrue : raw = trueId
  · subst htrue
    cases h
    exact ⟨rfl, trivial⟩
  by_cases hlarge : raw / Int.pow 2 64 = 1
  · rw [decode_large hlarge] at h
    split at h
    · cases h
    · next hsmall =>
      cases h
      refine ⟨?_, trivial⟩
      rw [Identified.id, if_neg hsmall, toInt_ofInt_emod]
      rw [pow_64] at *
      omega
  by_cases hfloat : raw / Int.pow 2 64 = 2
  · rw [decode_float hfloat] at h
    cases h
    refine ⟨?_, trivial⟩
    have hpow : Int.pow 2 65 = 36893488147419103232 := rfl
    rw [pow_64] at *
    have hbits : (raw % 18446744073709551616).toNat < 18446744073709551616 := by omega
    rw [Identified.id, UInt64.toNat_ofNat_of_lt' hbits, hpow]
    omega
  by_cases hodd : raw % 2 = 1
  · rw [decode_odd hlarge hfloat hodd] at h
    split at h
    · next hsmall =>
      cases h
      refine ⟨?_, trivial⟩
      rw [Identified.id, toInt_ofInt_of_small hsmall, if_pos hsmall]
      omega
    · cases h
  · rw [decode_even hfalse hnil htrue hlarge hfloat hodd] at h
    split at h
    · next hcounter =>
      cases h
      have hnat : ((raw.toNat : Nat) : Int) = raw := by
        obtain ⟨k, hk, hid, -⟩ := isCounterId_iff.mp hcounter
        simp only [counterStart, counterStride] at hid
        omega
      refine ⟨hnat, ?_⟩
      rw [Identified.IsPossible, hnat]
      exact hcounter
    · cases h

abbrev Word := BitVec 128

namespace Word

def sub? (a b : Word) : Option Word :=
  if a.ssubOverflow b then none else some (a - b)

def low (a : Word) : BitVec 64 :=
  (a &&& BitVec.ofNat 128 (wordBound - 1)).setWidth 64

def lowSub? (a b : BitVec 64) : Option (BitVec 64) :=
  if a.usubOverflow b then none else some (a - b)

end Word

/-- What a word stands for, computed with words alone; none as soon as a result does not fit. -/
def decodeWord (raw : Word) : Option (Option Identified) :=
  if raw = 0 then some (some (.boolean false))
  else if raw = 8 then some (some .nil)
  else if raw = 20 then some (some (.boolean true))
  else if raw.sshiftRight 64 = 1 then
    let n := Int64.ofBitVec raw.low
    some (if isSmall n.toInt then none else some (.fixnum n))
  else if raw.sshiftRight 64 = 2 then some (some (.float (UInt64.ofBitVec raw.low)))
  else if raw &&& 1 = 1 then
    (raw.sub? 1).map fun double =>
      let n := (double.sshiftRight 1).toInt
      if isSmall n then some (.fixnum (Int64.ofInt n)) else none
  else if 0 ≤ raw.toInt ∧ raw.toInt < wordBound then
    if 8 < raw.low then
      (Word.lowSub? raw.low 8).map fun offset =>
        if offset % 16 = 0 then some (.counter raw.low.toNat) else none
    else some none
  else some none

namespace Word

variable (raw : Word)

private theorem toInt_bounds : -170141183460469231731687303715884105728 ≤ raw.toInt ∧
    raw.toInt < 170141183460469231731687303715884105728 :=
  ⟨raw.le_toInt, raw.toInt_lt⟩

private theorem toInt_tag : (raw.sshiftRight 64).toInt = raw.toInt / Int.pow 2 64 := by
  rw [BitVec.toInt_sshiftRight, Int.shiftRight_eq_div_pow]
  rfl

private theorem toNat_low : (raw.low.toNat : Int) = raw.toInt % Int.pow 2 64 := by
  have hlow : raw.low = raw.setWidth 64 := by
    have hmask : (BitVec.ofNat 128 (wordBound - 1)).setWidth 64 = BitVec.allOnes 64 := rfl
    rw [low, BitVec.setWidth_and, hmask, BitVec.and_allOnes]
  rw [hlow, BitVec.toNat_setWidth, BitVec.toInt_eq_toNat_cond, pow_64]
  split <;> omega

private theorem ofBitVec_low : Int64.ofBitVec raw.low = Int64.ofInt (raw.toInt % Int.pow 2 64) := by
  rw [← raw.toNat_low, Int64.ofInt, BitVec.ofInt_natCast, BitVec.ofNat_toNat, BitVec.setWidth_eq]
  rfl

private theorem and_one_iff : raw &&& 1 = 1 ↔ raw.toInt % 2 = 1 := by
  have hmod : raw.toInt % 2 = ((raw.toNat % 2 : Nat) : Int) := by
    rw [BitVec.toInt_eq_toNat_cond]
    split <;> omega
  rw [hmod, ← BitVec.toNat_inj, BitVec.toNat_and]
  have hone : (1 : Word).toNat = 1 := rfl
  rw [hone, Nat.and_one_is_mod]
  omega

/-- An odd word has a predecessor: the least word is even. -/
private theorem sub?_one (hodd : raw.toInt % 2 = 1) :
    ∃ double, raw.sub? 1 = some double ∧ (double.sshiftRight 1).toInt = (raw.toInt - 1) / 2 := by
  have hbounds := raw.toInt_bounds
  have hone : (1 : Word).toInt = 1 := rfl
  have hfits : ¬ raw.ssubOverflow 1 := by
    simp only [BitVec.ssubOverflow, hone]
    simp
    omega
  refine ⟨raw - 1, if_neg hfits, ?_⟩
  rw [BitVec.toInt_sshiftRight, Int.shiftRight_eq_div_pow,
    BitVec.toInt_sub_of_not_ssubOverflow hfits, hone]
  rfl

private theorem lowSub?_eight {a : BitVec 64} (h : 8 < a) :
    ∃ offset, lowSub? a 8 = some offset ∧ (offset % 16 = 0 ↔ (a.toNat - 8) % 16 = 0) := by
  have height : (8 : BitVec 64).toNat = 8 := rfl
  have hfits : ¬ a.usubOverflow 8 := by
    rw [BitVec.lt_def, height] at h
    simp [BitVec.usubOverflow]
    omega
  refine ⟨a - 8, if_neg hfits, ?_⟩
  have hle : (8 : BitVec 64) ≤ a := BitVec.le_of_lt h
  rw [← BitVec.toNat_inj, BitVec.toNat_umod, BitVec.toNat_sub_of_le hle, height]
  rfl

private theorem isCounterId_of_lt {raw : Word} (hword : 0 ≤ raw.toInt ∧ raw.toInt < wordBound)
    (hstart : 8 < raw.low) :
    raw.low.toNat = raw.toInt.toNat ∧
      (isCounterId raw.toInt ↔ (raw.low.toNat - 8) % 16 = 0) := by
  have hbound : wordBound = 18446744073709551616 := rfl
  have hlow := raw.toNat_low
  have hstart : 8 < raw.low.toNat := hstart
  rw [hbound] at hword
  rw [pow_64] at hlow
  rw [isCounterId_iff_mod]
  omega

private theorem not_isCounterId {raw : Word}
    (h : ¬ (0 ≤ raw.toInt ∧ raw.toInt < wordBound) ∨ ¬ 8 < raw.low) :
    ¬ isCounterId raw.toInt := by
  have hbound : wordBound = 18446744073709551616 := rfl
  have hlow := raw.toNat_low
  have height : (8 : BitVec 64).toNat = 8 := rfl
  rw [BitVec.lt_def, height, hbound] at h
  rw [pow_64] at hlow
  rw [isCounterId_iff_mod]
  omega

end Word

theorem decodeWord_eq (raw : Word) : decodeWord raw = some (decode raw.toInt) := by
  have heq : ∀ n : Word, raw = n ↔ raw.toInt = n.toInt := fun n => BitVec.toInt_inj.symm
  have htag : ∀ n : Word, raw.sshiftRight 64 = n ↔ raw.toInt / Int.pow 2 64 = n.toInt := by
    intro n
    rw [← BitVec.toInt_inj, raw.toInt_tag]
  have hlow := raw.toNat_low
  -- The same regions again; subtractions occur in the last two of them only.
  by_cases hfalse : raw = 0
  · subst hfalse
    rfl
  by_cases hnil : raw = 8
  · subst hnil
    rfl
  by_cases htrue : raw = 20
  · subst htrue
    rfl
  rw [decodeWord, if_neg hfalse, if_neg hnil, if_neg htrue]
  by_cases hlarge : raw.sshiftRight 64 = 1
  · rw [if_pos hlarge, decode_large ((htag 1).mp hlarge), raw.ofBitVec_low]
  by_cases hfloat : raw.sshiftRight 64 = 2
  · rw [if_neg hlarge, if_pos hfloat, decode_float ((htag 2).mp hfloat), ← hlow,
      Int.toNat_natCast]
    simp [UInt64.ofNat]
  rw [if_neg hlarge, if_neg hfloat]
  rw [htag] at hlarge hfloat
  by_cases hodd : raw.toInt % 2 = 1
  · obtain ⟨double, hsub, hhalf⟩ := raw.sub?_one hodd
    rw [if_pos (raw.and_one_iff.mpr hodd), hsub, decode_odd hlarge hfloat hodd, Option.map_some,
      hhalf]
  · rw [if_neg (mt raw.and_one_iff.mp hodd), decode_even (mt (heq 0).mpr hfalse)
      (mt (heq 8).mpr hnil) (mt (heq 20).mpr htrue) hlarge hfloat hodd]
    by_cases hword : 0 ≤ raw.toInt ∧ raw.toInt < wordBound
    · by_cases hstart : 8 < raw.low
      · obtain ⟨offset, hsub, hstride⟩ := Word.lowSub?_eight hstart
        obtain ⟨hnat, hcounter⟩ := Word.isCounterId_of_lt hword hstart
        simp only [if_pos hword, if_pos hstart, hsub, Option.map_some, hcounter, hstride, hnat]
      · rw [if_pos hword, if_neg hstart, if_neg (Word.not_isCounterId (.inr hstart))]
    · rw [if_neg hword, if_neg (Word.not_isCounterId (.inl hword))]

def Identified.immediate? : Identified → Option Value
  | .nil => some .nil
  | .boolean b => some (.bool b)
  | .fixnum n => some (.integer n)
  | .float bits => some (.float bits)
  | .counter _ => none

private theorem isPossible_of_ofImmediate? {v : Value} {d : Identified}
    (h : ofImmediate? v = some d) : d.IsPossible ∧ d.immediate? = some v := by
  cases v <;> cases h <;> exact ⟨trivial, rfl⟩

theorem immediate?_of_ofValue? {v : Value} {id : Int} (h : ofValue? v = some id) :
    (decode id).bind Identified.immediate? = some v := by
  obtain ⟨d, hd, rfl⟩ := Option.map_eq_some_iff.mp h
  obtain ⟨hpossible, himmediate⟩ := isPossible_of_ofImmediate? hd
  rw [decode_id hpossible, Option.bind_some, himmediate]

theorem decode_counter {k : Nat} (hk : 1 ≤ k)
    (hbound : counterStart + counterStride * k < wordBound) :
    decode (counterStart + counterStride * k : Nat) =
      some (.counter (counterStart + counterStride * k)) := by
  refine decode_id (d := .counter (counterStart + counterStride * k)) ?_
  exact isCounterId_iff.mpr ⟨k, by omega, by simp, by omega⟩

/-- Ids and what they stand for correspond one to one. The id of every immediate is decoded to that
immediate, and every id of the counter to itself. Conversely, whatever an id is decoded to has this
very id, and is an immediate or has an id of the counter. So no two immediates share an id, and none
has an id of the counter. Decoding with 128-bit words comes to the same and never leaves the
word. -/
theorem id_decode_inverse :
    (∀ v : Value, (∀ name, v ≠ .symbol name) → (∀ o, v ≠ .object o) →
        ∃ id, ofValue? v = some id ∧ (decode id).bind Identified.immediate? = some v) ∧
      (∀ k : Nat, 1 ≤ k → counterStart + counterStride * k < wordBound →
        decode (counterStart + counterStride * k : Nat) =
          some (.counter (counterStart + counterStride * k))) ∧
      (∀ raw d, decode raw = some d → d.id = raw ∧
        ((∃ v, d.immediate? = some v ∧ ofValue? v = some raw) ∨
          ∃ k : Nat, 1 ≤ k ∧ raw = (counterStart + counterStride * k : Nat) ∧ raw < wordBound)) ∧
      (∀ u v id, ofValue? u = some id → ofValue? v = some id → u = v) ∧
      (∀ v (k : Nat), 1 ≤ k → counterStart + counterStride * k < wordBound →
        ofValue? v ≠ some (counterStart + counterStride * k : Nat)) ∧
      ∀ raw : Word, decodeWord raw = some (decode raw.toInt) := by
  refine ⟨?_, fun k hk hbound => decode_counter hk hbound, ?_, ?_, ?_, decodeWord_eq⟩
  · intro v hsymbol hobject
    obtain ⟨id, hid⟩ : ∃ id, ofValue? v = some id := by
      cases v with
      | symbol name => exact absurd rfl (hsymbol name)
      | object o => exact absurd rfl (hobject o)
      | _ => exact ⟨_, rfl⟩
    exact ⟨id, hid, immediate?_of_ofValue? hid⟩
  · intro raw d hdecode
    obtain ⟨hid, hpossible⟩ := id_of_decode hdecode
    refine ⟨hid, ?_⟩
    cases d with
    | counter id =>
        obtain ⟨k, hk, heq, hbound⟩ := isCounterId_iff.mp hpossible
        have hraw : (id : Int) = raw := hid
        refine .inr ⟨k.toNat, by omega, ?_, by omega⟩
        simp only [counterStart, counterStride] at heq ⊢
        omega
    | nil => exact .inl ⟨.nil, rfl, congrArg some hid⟩
    | boolean b => exact .inl ⟨.bool b, rfl, congrArg some hid⟩
    | fixnum n => exact .inl ⟨.integer n, rfl, congrArg some hid⟩
    | float bits => exact .inl ⟨.float bits, rfl, congrArg some hid⟩
  · intro u v id hu hv
    have hsame := (immediate?_of_ofValue? hu).symm.trans (immediate?_of_ofValue? hv)
    exact Option.some.inj hsame
  · intro v k hk hbound hv
    have himmediate := immediate?_of_ofValue? hv
    rw [decode_counter hk hbound] at himmediate
    cases himmediate

theorem id_decode_inverse_extremes :
    (∃ id, ofValue? (.integer Int64.minValue) = some id ∧
        (decode id).bind Identified.immediate? = some (.integer Int64.minValue)) ∧
      decode 24 = some (.counter 24) ∧ ofValue? (.float 0x7ff8000000000001) ≠ some 24 := by
  obtain ⟨hvalue, hcounter, -, -, hapart, -⟩ := id_decode_inverse
  exact ⟨hvalue _ (by simp) (by simp), hcounter 1 (by decide) (by decide),
    hapart _ 1 (by decide) (by decide)⟩

end RubyRuntime.ObjectId
