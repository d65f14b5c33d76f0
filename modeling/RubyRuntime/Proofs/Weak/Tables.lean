import RubyRuntime.Proofs.Lookup
import RubyRuntime.Weak.KeyMap

/-!
# Tables of weak key maps

What the operations of a weak key map do to its table, and which maps they lead to. No table of such
a map has two entries under one key.
-/
namespace RubyRuntime.WeakKeyMap

variable {held : ObjectRef → Bool} {entries table : List (EqlKey × KeyEntry)} {map : WeakKeyMap}

theorem isAlive_iff {o : ObjectRef} :
    isAlive held table o ↔ held o ∨ ∃ entry ∈ table, entry.2.value.refersTo o := by
  simp [isAlive]

theorem isAlive_mono (h : ∀ entry ∈ entries, entry ∈ table) {o : ObjectRef}
    (halive : isAlive held entries o) : isAlive held table o := by
  rw [isAlive_iff] at halive ⊢
  rcases halive with houtside | ⟨holder, hmem, hrefers⟩
  · exact .inl houtside
  · exact .inr ⟨holder, h holder hmem, hrefers⟩

theorem sublist_sweepFrom (held : ObjectRef → Bool) (kept rest : List (EqlKey × KeyEntry)) :
    (sweepFrom held kept rest).Sublist (kept ++ rest) := by
  induction rest generalizing kept with
  | nil => simp [sweepFrom]
  | cons entry rest ih =>
      rw [sweepFrom]
      split
      · simpa using ih (kept ++ [entry])
      · exact (ih kept).trans (List.Sublist.append_left (List.sublist_cons_self entry rest) kept)

theorem sublist_sweep (held : ObjectRef → Bool) (map : WeakKeyMap) :
    (map.sweep held).entries.Sublist map.entries :=
  sublist_sweepFrom held [] map.entries

section Store

variable {k : EqlKey} {entry : KeyEntry}

theorem lookup_store (k : EqlKey) (entry : KeyEntry) (table : List (EqlKey × KeyEntry)) :
    (store k entry table).lookup k = some entry := by
  induction table with
  | nil => simp [store]
  | cons first rest ih =>
      obtain ⟨k', old⟩ := first
      rw [store]
      split
      · next heq => simp [heq]
      · next hne =>
        rw [List.lookup_cons, beq_eq_false_iff_ne.mpr (Ne.symm hne)]
        exact ih

theorem mem_store_iff (h : (table.map Prod.fst).Nodup) {e : EqlKey × KeyEntry} :
    e ∈ store k entry table ↔ e = (k, entry) ∨ e ∈ table ∧ e.1 ≠ k := by
  induction table with
  | nil => simp [store]
  | cons first rest ih =>
      obtain ⟨k', old⟩ := first
      rw [List.map_cons, List.nodup_cons] at h
      rw [store]
      split
      · next heq =>
        subst heq
        have hother : ∀ e ∈ rest, e.1 ≠ k' := by
          intro e he heq
          exact h.1 (List.mem_map.mpr ⟨e, he, heq⟩)
        grind
      · next hne =>
        rw [List.mem_cons, ih h.2]
        grind

theorem isAlive_store_iff (h : (table.map Prod.fst).Nodup) {o : ObjectRef} :
    isAlive held (store k entry table) o ↔
      held o ∨ entry.value.refersTo o ∨ ∃ e ∈ table, e.1 ≠ k ∧ e.2.value.refersTo o := by
  rw [isAlive_iff]
  constructor
  · rintro (houtside | ⟨holder, hmem, hrefers⟩)
    · exact .inl houtside
    · rcases (mem_store_iff h).mp hmem with rfl | ⟨hbefore, hkey⟩
      · exact .inr (.inl hrefers)
      · exact .inr (.inr ⟨holder, hbefore, hkey, hrefers⟩)
  · rintro (houtside | hnew | ⟨holder, hbefore, hkey, hrefers⟩)
    · exact .inl houtside
    · exact .inr ⟨(k, entry), (mem_store_iff h).mpr (.inl rfl), hnew⟩
    · exact .inr ⟨holder, (mem_store_iff h).mpr (.inr ⟨hbefore, hkey⟩), hrefers⟩

theorem nodup_store (h : (table.map Prod.fst).Nodup) :
    ((store k entry table).map Prod.fst).Nodup := by
  induction table with
  | nil => simp [store]
  | cons first rest ih =>
      obtain ⟨k', old⟩ := first
      rw [List.map_cons, List.nodup_cons] at h
      rw [store]
      split
      · exact List.nodup_cons.mpr h
      · next hne =>
        refine List.nodup_cons.mpr ⟨fun hmem => ?_, ih h.2⟩
        obtain ⟨e, he, heq⟩ := List.mem_map.mp hmem
        rcases (mem_store_iff h.2).mp he with rfl | ⟨hrest, -⟩
        · exact hne heq.symm
        · exact h.1 (heq ▸ List.mem_map_of_mem hrest)

end Store

theorem entry?_eq_some {o : ObjectRef} {entry : KeyEntry} (h : map.entry? held o = some entry) :
    (o.eqlKey, entry) ∈ map.entries ∧ isAlive held map.entries entry.key ∧
      (Value.object entry.key).eql (.object o) := by
  obtain ⟨hlookup, halive⟩ := Option.filter_eq_some_iff.mp h
  exact ⟨mem_of_lookup hlookup, Bool.and_eq_true_iff.mp halive⟩

/-- A write keeps the key that it finds in the swept table, and otherwise stores its own. -/
theorem set_object (held : ObjectRef → Bool) (map : WeakKeyMap) (o : ObjectRef) (v : Value) :
    ∃ stored, map.set held (.object o) v =
        .ok ⟨store o.eqlKey ⟨stored, v⟩ (map.sweep held).entries⟩ ∧
      ( entry? held o (map.sweep held) = none ∧ stored = o ∨
        ∃ entry, entry? held o (map.sweep held) = some entry ∧ stored = entry.key) := by
  cases hfound : entry? held o (map.sweep held) with
  | none => exact ⟨o, by simp [set, Value.asObject?, hfound], .inl ⟨rfl, rfl⟩⟩
  | some entry =>
      exact ⟨entry.key, by simp [set, Value.asObject?, hfound], .inr ⟨entry, rfl, rfl⟩⟩

/-- The maps that come about from an empty one by any operations, while objects come to be held and
dropped as they like and the table is visited in any order. -/
inductive Reached : WeakKeyMap → Prop where
  | start : Reached clear
  | set {map map' : WeakKeyMap} {held : ObjectRef → Bool} {key value : Value} (h : Reached map)
    (hset : map.set held key value = .ok map') : Reached map'
  | delete {map : WeakKeyMap} (h : Reached map) (held : ObjectRef → Bool) (key : Value) :
    Reached (map.delete held key).2
  | sweep {map : WeakKeyMap} (h : Reached map) (held : ObjectRef → Bool) : Reached (map.sweep held)
  | rearrange {map : WeakKeyMap} {entries : List (EqlKey × KeyEntry)} (h : Reached map)
    (hperm : map.entries.Perm entries) : Reached ⟨entries⟩

theorem Reached.nodup (h : Reached map) : (map.entries.map Prod.fst).Nodup := by
  have hsweep : ∀ {map : WeakKeyMap} {held}, (map.entries.map Prod.fst).Nodup →
      ((map.sweep held).entries.map Prod.fst).Nodup :=
    fun h => h.sublist ((sublist_sweep _ _).map _)
  induction h with
  | start => exact List.nodup_nil
  | @set map map' held key value _ hset ih =>
      cases key with
      | object o =>
          obtain ⟨stored, heq, -⟩ := set_object held map o value
          cases heq.symm.trans hset
          exact nodup_store (hsweep ih)
      | _ => cases hset
  | @delete map _ held key ih =>
      cases hkey : key.asObject? with
      | none => simpa [WeakKeyMap.delete, hkey] using ih
      | some o =>
          simp only [WeakKeyMap.delete, hkey]
          split
          · exact (hsweep ih).sublist (List.filter_sublist.map _)
          · exact hsweep ih
  | sweep _ held ih => exact hsweep ih
  | rearrange _ hperm ih => exact (hperm.map _).nodup ih

end RubyRuntime.WeakKeyMap
