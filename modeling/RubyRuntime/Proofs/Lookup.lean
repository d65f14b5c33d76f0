import Mathlib.Data.List.Nodup

/-!
# Lookups

The tables of the runtime are lists of pairs: ids and their targets, addresses and finalizers, keys
and entries of weak maps. A lookup finds a pair of the table, and where no key occurs twice it finds
exactly the pairs of the table.
-/
namespace RubyRuntime

variable {α β : Type} [BEq α] [LawfulBEq α] {table : List (α × β)} {key : α} {value : β}

theorem mem_of_lookup (h : table.lookup key = some value) : (key, value) ∈ table := by
  obtain ⟨before, after, heq, -⟩ := List.lookup_eq_some_iff.mp h
  simp [heq]

theorem lookup_of_mem (hmem : (key, value) ∈ table)
    (hunique : ∀ other, (key, other) ∈ table → other = value) :
    table.lookup key = some value := by
  cases hlookup : table.lookup key with
  | none =>
      have habsent := List.lookup_eq_none_iff.mp hlookup _ hmem
      simp at habsent
  | some other => rw [hunique other (mem_of_lookup hlookup)]

theorem lookup_eq_some_iff_mem (h : (table.map Prod.fst).Nodup) :
    table.lookup key = some value ↔ (key, value) ∈ table := by
  refine ⟨mem_of_lookup, fun hmem => lookup_of_mem hmem fun other hother => ?_⟩
  exact congrArg Prod.snd (List.inj_on_of_nodup_map h hother hmem rfl)

end RubyRuntime
