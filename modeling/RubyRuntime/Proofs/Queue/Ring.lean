import Mathlib.Data.List.Basic
import RubyRuntime.Queue.Ring

/-!
# The list that a ring stands for

`Ring.Represents items ring` says that the slots from `takeEnd` on, around the end of the slots,
hold exactly `items`. It is kept by every operation on rings, with the list changed as a queue
changes it, and it puts every index that these operations use inside the slots.
-/
namespace RubyRuntime.Ring

variable {α : Type}

/-- The ring holds the items, oldest first; the next one goes behind the last of them. -/
structure Represents (items : List α) (ring : Ring α) : Prop where
  size_eq : ring.size = items.length
  size_le : ring.size ≤ ring.slots.size
  takeEnd_lt : ring.takeEnd < ring.slots.size
  addEnd_eq : ring.addEnd = ring.index ring.size
  slot_eq : ∀ i (h : i < items.length), ring.slots[ring.index i]? = some (some items[i])

/-- Both ends and every slot that an item may stand in are inside the slots, of which there is at
least one. -/
def InBounds (ring : Ring α) : Prop :=
  ring.addEnd < ring.slots.size ∧ ring.takeEnd < ring.slots.size ∧
    ∀ i, ring.index i < ring.slots.size

theorem index_eq (ring : Ring α) {i : Nat} (ht : ring.takeEnd < ring.slots.size)
    (hi : i ≤ ring.slots.size) :
    ring.index i =
      if ring.takeEnd + i < ring.slots.size then ring.takeEnd + i
      else ring.takeEnd + i - ring.slots.size := by
  unfold index
  split_ifs with h
  · exact Nat.mod_eq_of_lt h
  · rw [Nat.mod_eq_sub_mod (by omega), Nat.mod_eq_of_lt (by omega)]

theorem index_inj (ring : Ring α) {i j : Nat} (ht : ring.takeEnd < ring.slots.size)
    (hi : i < ring.slots.size) (hj : j < ring.slots.size) (h : ring.index i = ring.index j) :
    i = j := by
  rw [ring.index_eq ht (Nat.le_of_lt hi), ring.index_eq ht (Nat.le_of_lt hj)] at h
  split_ifs at h <;> omega

private theorem filterMap_getElem?_range (items : List α) :
    (List.range items.length).filterMap (fun i => items[i]?) = items := by
  induction items with
  | nil => rfl
  | cons a items ih => simp [List.range_succ_eq_map, List.filterMap_map, ih]

namespace Represents

variable {items : List α} {ring : Ring α}

theorem inBounds (h : ring.Represents items) : ring.InBounds := by
  have hpos : 0 < ring.slots.size := Nat.zero_lt_of_lt h.takeEnd_lt
  have hindex : ∀ i, ring.index i < ring.slots.size := fun i => Nat.mod_lt _ hpos
  exact ⟨h.addEnd_eq ▸ hindex _, h.takeEnd_lt, hindex⟩

theorem toList_eq (h : ring.Represents items) : ring.toList = items := by
  have hslots : ring.toList = (List.range items.length).filterMap fun i => items[i]? := by
    rw [toList, h.size_eq]
    apply List.filterMap_congr
    intro i hi
    have hi : i < items.length := List.mem_range.mp hi
    rw [h.slot_eq i hi, List.getElem?_eq_getElem hi]
    rfl
  rw [hslots, filterMap_getElem?_range]

theorem empty {length : Nat} (h : 0 < length) : (Ring.empty length : Ring α).Represents [] where
  size_eq := rfl
  size_le := Nat.zero_le _
  takeEnd_lt := by simpa [Ring.empty] using h
  addEnd_eq := by simp [Ring.empty, index]
  slot_eq := by simp

theorem push (h : ring.Represents items) (a : α) (hroom : ring.size < ring.slots.size) :
    (ring.push a).Represents (items ++ [a]) where
  size_eq := by simp [Ring.push, h.size_eq]
  size_le := by simpa [Ring.push, Nat.succ_le_iff] using hroom
  takeEnd_lt := by simpa [Ring.push] using h.takeEnd_lt
  addEnd_eq := by
    have hadd := h.addEnd_eq
    simp only [Ring.push, index, Array.size_setIfInBounds] at hadd ⊢
    rw [hadd, Nat.mod_add_mod, Nat.add_assoc]
  slot_eq := by
    intro i hi
    have hindex : (ring.push a).index i = ring.index i := by simp [Ring.push, index]
    have hi : i < items.length + 1 := by simpa using hi
    have hadd : ring.addEnd < ring.slots.size := h.inBounds.1
    rw [hindex]
    simp only [Ring.push]
    by_cases hlast : i = items.length
    · subst hlast
      have hsame : ring.addEnd = ring.index items.length := by rw [h.addEnd_eq, h.size_eq]
      rw [← hsame, Array.getElem?_setIfInBounds_self_of_lt hadd]
      simp
    · have hi : i < items.length := by omega
      have hne : ring.addEnd ≠ ring.index i := by
        rw [h.addEnd_eq]
        intro heq
        have := ring.index_inj h.takeEnd_lt hroom (by have := h.size_eq; omega) heq
        have := h.size_eq
        omega
      rw [Array.getElem?_setIfInBounds_ne hne, h.slot_eq i hi, List.getElem_append_left hi]

theorem pop_nil (h : ring.Represents []) : ring.pop = (none, ring) := by
  have hsize : ring.size = 0 := h.size_eq
  simp [Ring.pop, hsize]

theorem pop_cons {a : α} (h : ring.Represents (a :: items)) :
    ring.pop.1 = some a ∧ ring.pop.2.Represents items := by
  have hsize : ring.size = items.length + 1 := h.size_eq
  have hle := h.size_le
  have ht := h.takeEnd_lt
  have hpop : ring.pop = ((ring.slots[ring.takeEnd]?).join,
      { ring with
        slots := ring.slots.setIfInBounds ring.takeEnd none
        takeEnd := (ring.takeEnd + 1) % ring.slots.size
        size := ring.size - 1 }) := by
    simp [Ring.pop, hsize]
  have hfirst : ring.index 0 = ring.takeEnd := Nat.mod_eq_of_lt ht
  -- The item that was `i + 1`-st becomes the `i`-th.
  have hindex : ∀ i, ring.pop.2.index i = ring.index (i + 1) := by
    intro i
    simp only [hpop, index, Array.size_setIfInBounds]
    rw [Nat.mod_add_mod]
    congr 1
    omega
  constructor
  · have hslot := h.slot_eq 0 (by simp)
    rw [hfirst] at hslot
    simp [hpop, hslot]
  · constructor
    · simp [hpop, hsize]
    · simp only [hpop, Array.size_setIfInBounds]
      omega
    · simp only [hpop, Array.size_setIfInBounds]
      exact Nat.mod_lt _ (by omega)
    · have hadd : ring.addEnd = ring.index (ring.pop.2.size + 1) := by
        rw [h.addEnd_eq]
        simp [hpop, hsize]
      rw [hindex, ← hadd]
      simp [hpop]
    · intro i hi
      have hne : ring.takeEnd ≠ ring.index (i + 1) := by
        rw [← hfirst]
        intro heq
        have := ring.index_inj ht (by omega) (by omega) heq
        omega
      rw [hindex]
      simp only [hpop]
      rw [Array.getElem?_setIfInBounds_ne hne, h.slot_eq (i + 1) (by simpa using hi)]
      simp

theorem relinearize {length : Nat} (h : ring.Represents items) (hpos : 0 < length)
    (hlen : items.length ≤ length) : (ring.relinearize length).Represents items := by
  have hsize := h.size_eq
  have hslots : (ring.relinearize length).slots.size = length := by
    simp [Ring.relinearize]
    omega
  constructor
  · exact hsize
  · rw [hslots]
    simpa [Ring.relinearize, hsize] using hlen
  · rw [hslots]
    exact hpos
  · simp only [index, hslots]
    simp [Ring.relinearize]
  · intro i hi
    have hindex : (ring.relinearize length).index i = i := by
      simp only [index, hslots]
      simpa [Ring.relinearize] using Nat.mod_eq_of_lt (by omega)
    rw [hindex]
    have hrange : i < ring.size := by omega
    simp only [Ring.relinearize, List.getElem?_toArray]
    rw [List.getElem?_append_left (by simpa using hrange), List.getElem?_map,
      List.getElem?_range hrange]
    simp [h.slot_eq i hi]

end Represents

end RubyRuntime.Ring
