import RubyRuntime.Proofs.Weak.Tables

/-!
# Reading back what was written to a weak key map

A write for a key that equals a stored one keeps the stored one. The main result is that the writer
reads its value back, unless the value that was replaced is the stored key itself and nobody else
holds it.
-/
namespace RubyRuntime.WeakKeyMap

variable {held : ObjectRef → Bool} {table : List (EqlKey × KeyEntry)} {map : WeakKeyMap}
  {o : ObjectRef} {v : Value}

def holding (held : ObjectRef → Bool) (v : Value) (o : ObjectRef) : Bool :=
  held o || v.refersTo o

/-- The entry under which a write of `v` for `o` puts the value has a key that dies with the value
that is replaced. -/
structure DiesWith (held : ObjectRef → Bool) (map : WeakKeyMap) (o : ObjectRef) (v : Value)
    (entry : KeyEntry) : Prop where
  found : entry? (holding held v) o (map.sweep (holding held v)) = some entry
  isOwnValue : entry.value.refersTo entry.key
  outside : held entry.key = false
  written : v.refersTo entry.key = false
  others : ∀ other ∈ (map.sweep (holding held v)).entries, other.1 ≠ o.eqlKey →
    other.2.value.refersTo entry.key = false

theorem eql_self (o : ObjectRef) : (Value.object o).eql (.object o) := by
  simp only [Value.eql]
  split <;> simp_all

theorem entry?_store {stored : ObjectRef} (heql : (Value.object stored).eql (.object o)) :
    entry? held o ⟨store o.eqlKey ⟨stored, v⟩ table⟩ =
      if isAlive held (store o.eqlKey ⟨stored, v⟩ table) stored then some ⟨stored, v⟩
      else none := by
  simp [ entry?, lookup_store, Option.filter_some, heql]

theorem diesWith_iff (hnodup : ((map.sweep (holding held v)).entries.map Prod.fst).Nodup)
    {entry : KeyEntry}
    (hfound : entry? (holding held v) o (map.sweep (holding held v)) = some entry) :
    DiesWith held map o v entry ↔
      ¬ isAlive held (store o.eqlKey ⟨entry.key, v⟩ (map.sweep (holding held v)).entries)
        entry.key := by
  rw [isAlive_store_iff hnodup]
  constructor
  · rintro ⟨-, -, houtside, hwritten, hothers⟩ (hheld | hnew | ⟨other, hmem, hkey, hrefers⟩)
    · simp [houtside] at hheld
    · simp [hwritten] at hnew
    · simp [hothers other hmem hkey] at hrefers
  · intro hdead
    simp only [not_or, not_exists, not_and, Bool.not_eq_true] at hdead
    obtain ⟨houtside, hwritten, hothers⟩ := hdead
    refine ⟨hfound, ?_, houtside, hwritten, hothers⟩
    -- It was alive when it was found, and nobody is left to hold it but the entry itself.
    obtain ⟨hmem, halive, -⟩ := entry?_eq_some hfound
    rcases isAlive_iff.mp halive with hheld | ⟨holder, hholder, hrefers⟩
    · simp [holding, houtside, hwritten] at hheld
    · by_cases hkey : holder.1 = o.eqlKey
      · cases List.inj_on_of_nodup_map hnodup hholder hmem hkey
        exact hrefers
      · simp [hothers holder hholder hkey] at hrefers

/-- A write for a key that the caller holds succeeds, in every map that can come about. The caller
then finds the key with the value that it wrote, unless the key that stays in the table dies with
the value that was replaced; in that case it finds neither. -/
theorem written_value_found_iff (h : Reached map) (held : ObjectRef → Bool) (o : ObjectRef)
    (v : Value) (hheld : held o) :
    ∃ map', map.set (holding held v) (.object o) v = .ok map' ∧
      ((∀ entry, ¬ DiesWith held map o v entry) →
        map'.get? held (.object o) = some v ∧ map'.isKey held (.object o)) ∧
      ((∃ entry, DiesWith held map o v entry) →
        map'.get? held (.object o) = none ∧ ¬ map'.isKey held (.object o)) := by
  have hnodup := (h.sweep (holding held v)).nodup
  obtain ⟨stored, hset, hstored⟩ := set_object (holding held v) map o v
  refine ⟨_, hset, ?_⟩
  simp only [get?, isKey, lookup?, Value.asObject?, Option.bind_some]
  rcases hstored with ⟨hnone, rfl⟩ | ⟨entry, hfound, rfl⟩
  · rw [entry?_store (eql_self stored), if_pos ((isAlive_store_iff hnodup).mpr (.inl hheld))]
    refine ⟨fun _ => ⟨rfl, rfl⟩, ?_⟩
    rintro ⟨entry, hdies⟩
    cases hnone.symm.trans hdies.found
  · have hdies := diesWith_iff hnodup hfound
    rw [entry?_store (entry?_eq_some hfound).2.2]
    split
    · next halive =>
      refine ⟨fun _ => ⟨rfl, rfl⟩, ?_⟩
      rintro ⟨other, hother⟩
      cases hfound.symm.trans hother.found
      exact absurd halive (hdies.mp hother)
    · next hdead =>
      refine ⟨fun hnever => absurd (hdies.mpr hdead) (hnever entry), fun _ => ?_⟩
      simp

private def text : ObjectRef := ⟨0, 0, "String", some "x"⟩

private def sameText : ObjectRef := ⟨1, 1, "String", some "x"⟩

def selfValued : WeakKeyMap :=
  ⟨[(text.eqlKey, ⟨text, .object text⟩)]⟩

private theorem reached_selfValued : Reached selfValued := by
  have hset : clear.set (fun _ => true) (.object text) (.object text) = .ok selfValued := rfl
  exact .set .start hset

theorem written_value_found_iff_sameText :
    ∃ map', selfValued.set (holding (fun _ => true) (.integer 1)) (.object sameText) (.integer 1) =
        .ok map' ∧
      map'.get? (fun _ => true) (.object sameText) = some (.integer 1) ∧
      map'.isKey (fun _ => true) (.object sameText) := by
  obtain ⟨map', hset, hfound, -⟩ :=
    written_value_found_iff reached_selfValued (fun _ => true) sameText (.integer 1) rfl
  refine ⟨map', hset, hfound fun entry hdies => ?_⟩
  cases hdies.outside

/-- Where only the equal text is held, the number is lost at once. -/
theorem selfValued_loses_write :
    Reached selfValued ∧
      ∃ map', selfValued.set (holding (· == sameText) (.integer 1)) (.object sameText)
          (.integer 1) = .ok map' ∧
        map'.get? (· == sameText) (.object sameText) = none ∧
        map'.isKey (· == sameText) (.object sameText) = false :=
  ⟨reached_selfValued, _, rfl, by decide, by decide⟩

end RubyRuntime.WeakKeyMap
