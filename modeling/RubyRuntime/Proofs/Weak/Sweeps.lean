import RubyRuntime.Proofs.Weak.Tables

/-!
# Sweeps of a weak key map

A sweep passes over the entries once, though dropping one entry may kill the key of another. An
entry is doomed if nothing but values of doomed entries holds its key. The main result is that a
sweep leaves no dead entry exactly if it visits every doomed entry after those whose values hold its
key. In any other order it keeps entries that are dead by its end.
-/
namespace RubyRuntime.WeakKeyMap

variable {held : ObjectRef → Bool} {table entries kept rest : List (EqlKey × KeyEntry)}
  {map : WeakKeyMap}

/-- An entry whose key is held neither from outside nor by the value of an entry that is going to
stay. -/
inductive Doomed (held : ObjectRef → Bool) (table : List (EqlKey × KeyEntry)) :
    KeyEntry → Prop where
  | intro {entry : KeyEntry} (houtside : held entry.key = false)
    (hholders : ∀ holder ∈ table, holder.2.value.refersTo entry.key → Doomed held table holder.2) :
    Doomed held table entry

def isSettled (held : ObjectRef → Bool) (table : List (EqlKey × KeyEntry)) : Bool :=
  table.all fun entry => isAlive held table entry.2.key

/-- No doomed entry is visited before one whose value holds its key. -/
def Orderly (held : ObjectRef → Bool) (table : List (EqlKey × KeyEntry)) : Prop :=
  table.Pairwise fun first later =>
    Doomed held table first.2 → later.2.value.refersTo first.2.key = false

namespace Doomed

variable {entry : KeyEntry}

theorem outside (h : Doomed held table entry) : held entry.key = false := by
  cases h with
  | intro houtside hholders => exact houtside

theorem holder (h : Doomed held table entry) {holder : EqlKey × KeyEntry} (hmem : holder ∈ table)
    (hrefers : holder.2.value.refersTo entry.key) : Doomed held table holder.2 := by
  cases h with
  | intro houtside hholders => exact hholders holder hmem hrefers

theorem of_dead (h : isAlive held table entry.key = false) : Doomed held table entry := by
  have hdead : ¬ isAlive held table entry.key := by simp [h]
  rw [isAlive_iff, not_or] at hdead
  refine .intro (by simpa using hdead.1) fun holder hmem hrefers => ?_
  exact absurd ⟨holder, hmem, hrefers⟩ hdead.2

theorem of_subset (h : Doomed held table entry) (hsubset : ∀ e ∈ entries, e ∈ table) :
    Doomed held entries entry := by
  induction h with
  | intro houtside hholders ih =>
      exact .intro houtside fun holder hmem hrefers => ih holder (hsubset holder hmem) hrefers

theorem of_dropped (h : Doomed held entries entry)
    (hdropped : ∀ e ∈ table, e ∈ entries ∨ Doomed held table e.2) : Doomed held table entry := by
  induction h with
  | intro houtside hholders ih =>
      refine .intro houtside fun holder hmem hrefers => ?_
      rcases hdropped holder hmem with hkept | hdoomed
      · exact ih holder hkept hrefers
      · exact hdoomed

theorem not_refersTo_self {entry : EqlKey × KeyEntry} (h : Doomed held table entry.2)
    (hmem : entry ∈ table) : entry.2.value.refersTo entry.2.key = false := by
  have hself : ∀ e : KeyEntry, Doomed held table e → ∀ k, (k, e) ∈ table →
      e.value.refersTo e.key = false := by
    intro e he
    induction he with
    | intro houtside hholders ih =>
        intro k hmem
        rw [Bool.eq_false_iff]
        intro hrefers
        have hfalse := ih _ hmem hrefers k hmem
        rw [hfalse] at hrefers
        cases hrefers
  exact hself entry.2 h entry.1 hmem

end Doomed

/-- No entry of a table is dead exactly if none is doomed. -/
theorem isSettled_iff : isSettled held table ↔ ∀ entry ∈ table, ¬ Doomed held table entry.2 := by
  rw [isSettled, List.all_eq_true]
  constructor
  · intro halive entry hmem hdoomed
    have hall : ∀ e : KeyEntry, Doomed held table e → ∀ k, (k, e) ∈ table → False := by
      intro e he
      induction he with
      | intro houtside hholders ih =>
          intro k hmem
          rcases isAlive_iff.mp (halive _ hmem) with hheld | ⟨holder, hholder, hrefers⟩
          · rw [houtside] at hheld
            cases hheld
          · exact ih holder hholder hrefers holder.1 hholder
    exact hall entry.2 hdoomed entry.1 hmem
  · intro hspared entry hmem
    rw [← Bool.not_eq_false]
    intro hdead
    exact hspared entry hmem (.of_dead hdead)

section Pass

theorem doomed_drop_iff {entry : EqlKey × KeyEntry}
    (hdead : ¬ isAlive held (kept ++ entry :: rest) entry.2.key) (other : KeyEntry) :
    Doomed held (kept ++ rest) other ↔ Doomed held (kept ++ entry :: rest) other := by
  constructor
  · intro hother
    refine hother.of_dropped fun x hx => ?_
    rcases List.mem_append.mp hx with hbefore | hafter
    · exact .inl (List.mem_append_left _ hbefore)
    · rcases List.mem_cons.mp hafter with rfl | hlater
      · exact .inr (.of_dead (by simpa using hdead))
      · exact .inl (List.mem_append_right _ hlater)
  · intro hother
    refine hother.of_subset fun x hx => ?_
    rcases List.mem_append.mp hx with hbefore | hlater
    · exact List.mem_append_left _ hbefore
    · exact List.mem_append_right _ (List.mem_cons_of_mem _ hlater)

theorem doomed_sweepFrom_iff (kept rest : List (EqlKey × KeyEntry)) (other : KeyEntry) :
    Doomed held (sweepFrom held kept rest) other ↔ Doomed held (kept ++ rest) other := by
  induction rest generalizing kept with
  | nil => simp [sweepFrom]
  | cons entry rest ih =>
      rw [sweepFrom]
      split
      · simpa using ih (kept ++ [entry])
      · next hdead => rw [ih, doomed_drop_iff hdead]

theorem countP_sweepFrom (kept rest : List (EqlKey × KeyEntry)) {p : EqlKey × KeyEntry → Bool}
    (hp : ∀ entry, p entry → isAlive held (sweepFrom held kept rest) entry.2.key) :
    (sweepFrom held kept rest).countP p = (kept ++ rest).countP p := by
  induction rest generalizing kept with
  | nil => simp [sweepFrom]
  | cons entry rest ih =>
      have hsubset := (sublist_sweepFrom held kept (entry :: rest)).subset
      rw [sweepFrom] at hp hsubset ⊢
      split at hp
      · next halive =>
        rw [if_pos halive, ih _ hp]
        simp
      · next hdead =>
        have hgone : p entry = false := by
          rw [Bool.eq_false_iff]
          intro hentry
          rw [if_neg hdead] at hsubset
          exact hdead (isAlive_mono (fun e he => hsubset he) (hp entry hentry))
        rw [if_neg hdead, ih _ hp]
        simp [hgone]

/-- The pass from a moment at which the doomed entries are those of the whole table: it leaves none
of them exactly if none has been kept so far and the others are visited in order. -/
theorem spares_sweepFrom_iff
    (hdoomed : ∀ entry, Doomed held (kept ++ rest) entry ↔ Doomed held table entry) :
    (∀ entry ∈ sweepFrom held kept rest, ¬ Doomed held table entry.2) ↔
      (∀ entry ∈ kept, ¬ Doomed held table entry.2) ∧
        rest.Pairwise fun first later =>
          Doomed held table first.2 → later.2.value.refersTo first.2.key = false := by
  induction rest generalizing kept with
  | nil => simp [sweepFrom]
  | cons entry rest ih =>
      rw [sweepFrom, List.pairwise_cons]
      split
      · next halive =>
        have hnext : ∀ e, Doomed held ((kept ++ [entry]) ++ rest) e ↔ Doomed held table e := by
          simpa using hdoomed
        rw [ih hnext, List.forall_mem_append, List.forall_mem_singleton]
        constructor
        · rintro ⟨⟨hkept, hspared⟩, hrest⟩
          exact ⟨hkept, fun later _ hentry => absurd hentry hspared, hrest⟩
        · rintro ⟨hkept, hfirst, hrest⟩
          refine ⟨⟨hkept, fun hentry => ?_⟩, hrest⟩
          -- Whoever holds the key of a doomed entry is doomed, so neither kept nor still to come.
          have hhere : Doomed held (kept ++ entry :: rest) entry.2 := (hdoomed _).mpr hentry
          rcases isAlive_iff.mp halive with houtside | ⟨holder, hholder, hrefers⟩
          · rw [hhere.outside] at houtside
            cases houtside
          · have hholderDoomed := (hdoomed _).mp (hhere.holder hholder hrefers)
            rcases List.mem_append.mp hholder with hbefore | hafter
            · exact hkept holder hbefore hholderDoomed
            · rcases List.mem_cons.mp hafter with rfl | hlater
              · rw [hhere.not_refersTo_self hholder] at hrefers
                cases hrefers
              · rw [hfirst holder hlater hentry] at hrefers
                cases hrefers
      · next hdead =>
        have hnext : ∀ e, Doomed held (kept ++ rest) e ↔ Doomed held table e :=
          fun e => (doomed_drop_iff hdead e).trans (hdoomed e)
        rw [ih hnext]
        refine and_congr_right fun _ => ⟨fun hrest => ⟨fun later hlater _ => ?_, hrest⟩, And.right⟩
        rw [Bool.eq_false_iff]
        intro hrefers
        exact hdead (isAlive_iff.mpr
          (.inr ⟨later, List.mem_append_right _ (List.mem_cons_of_mem _ hlater), hrefers⟩))

theorem isSettled_sweep_iff (held : ObjectRef → Bool) (map : WeakKeyMap) :
    isSettled held (map.sweep held).entries ↔ Orderly held map.entries := by
  have hpass : (∀ entry ∈ sweepFrom held [] map.entries, ¬ Doomed held map.entries entry.2) ↔ _ :=
    spares_sweepFrom_iff fun _ => Iff.rfl
  rw [isSettled_iff, sweep]
  simp only [doomed_sweepFrom_iff, List.nil_append, hpass, List.not_mem_nil, false_implies,
    implies_true, true_and]
  exact Iff.rfl

theorem size_eq_countP_iff (held : ObjectRef → Bool) (map : WeakKeyMap) :
    map.size held =
        map.entries.countP (fun entry => isAlive held (map.sweep held).entries entry.2.key) ↔
      isSettled held (map.sweep held).entries := by
  have hcount := countP_sweepFrom [] map.entries
    (p := fun entry => isAlive held (map.sweep held).entries entry.2.key) fun _ h => h
  rw [List.nil_append] at hcount
  rw [size, ← hcount, isSettled, List.all_eq_true, eq_comm]
  exact List.countP_eq_length

end Pass

section Writes

variable {k : EqlKey} {entry : KeyEntry} {o x : ObjectRef}

theorem isAlive_remove (hnodup : (table.map Prod.fst).Nodup) (hmem : (k, entry) ∈ table) :
    isAlive (fun x => held x || entry.value.refersTo x) (table.filter fun e => e.1 ≠ k) x =
      isAlive held table x := by
  rw [Bool.eq_iff_iff, isAlive_iff, isAlive_iff]
  constructor
  · rintro (houtside | ⟨holder, hholder, hrefers⟩)
    · rcases Bool.or_eq_true_iff.mp houtside with hheld | hrefers
      · exact .inl hheld
      · exact .inr ⟨(k, entry), hmem, hrefers⟩
    · exact .inr ⟨holder, List.mem_of_mem_filter hholder, hrefers⟩
  · rintro (hheld | ⟨holder, hholder, hrefers⟩)
    · exact .inl (by simp [hheld])
    · by_cases hkey : holder.1 = k
      · cases List.inj_on_of_nodup_map hnodup hholder hmem hkey
        exact .inl (by simp [hrefers])
      · exact .inr ⟨holder, List.mem_filter.mpr ⟨hholder, by simpa using hkey⟩, hrefers⟩

theorem isSettled_remove_iff (hnodup : (table.map Prod.fst).Nodup) (hmem : (k, entry) ∈ table)
    (halive : isAlive held table entry.key) :
    isSettled (fun x => held x || entry.value.refersTo x) (table.filter fun e => e.1 ≠ k) ↔
      isSettled held table := by
  simp only [isSettled, isAlive_remove hnodup hmem, List.all_eq_true]
  constructor
  · intro hall e he
    by_cases hkey : e.1 = k
    · cases List.inj_on_of_nodup_map hnodup he hmem hkey
      exact halive
    · exact hall e (List.mem_filter.mpr ⟨he, by simpa using hkey⟩)
  · intro hall e he
    exact hall e (List.mem_of_mem_filter he)

theorem isSettled_delete_iff (hnodup : (map.entries.map Prod.fst).Nodup) (o : ObjectRef) :
    isSettled (fun x => held x || (map.delete held (.object o)).1.any (·.refersTo x))
        (map.delete held (.object o)).2.entries ↔
      isSettled held (map.sweep held).entries := by
  have hswept : ((map.sweep held).entries.map Prod.fst).Nodup :=
    hnodup.sublist ((sublist_sweep held map).map _)
  simp only [delete, Value.asObject?]
  cases hentry : entry? held o (map.sweep held) with
  | none => simp
  | some entry =>
      obtain ⟨hmem, halive, -⟩ := entry?_eq_some hentry
      simpa using isSettled_remove_iff hswept hmem halive

theorem isAlive_store (hnodup : (table.map Prod.fst).Nodup) (halive : isAlive held table x)
    (hold : ∀ old, (k, old) ∈ table → old.value.refersTo x → isAlive held (store k entry table) x) :
    isAlive held (store k entry table) x := by
  rcases isAlive_iff.mp halive with hheld | ⟨⟨k', old⟩, hmem, hrefers⟩
  · exact isAlive_iff.mpr (.inl hheld)
  · by_cases hkey : k' = k
    · subst hkey
      exact hold old hmem hrefers
    · exact (isAlive_store_iff hnodup).mpr (.inr (.inr ⟨_, hmem, hkey, hrefers⟩))

theorem isSettled_store_iff (hnodup : (map.entries.map Prod.fst).Nodup)
    (hsettled : isSettled held map.entries) (hheld : held o) {stored : ObjectRef} (v : Value)
    (hstored : map.entry? held o = none ∧ stored = o ∨
      ∃ entry, map.entry? held o = some entry ∧ stored = entry.key) :
    let written := store o.eqlKey ⟨stored, v⟩ map.entries
    isSettled held written ↔
      ∀ old, (o.eqlKey, old) ∈ map.entries → ∀ entry ∈ written,
        old.value.refersTo entry.2.key → isAlive held written entry.2.key := by
  intro written
  rw [isSettled, List.all_eq_true] at hsettled ⊢
  constructor
  · intro hall old hold entry hmem hrefers
    exact hall entry hmem
  · intro hall entry hmem
    have hwas : held entry.2.key ∨ isAlive held map.entries entry.2.key := by
      rcases (mem_store_iff hnodup).mp hmem with rfl | ⟨hbefore, -⟩
      · rcases hstored with ⟨-, rfl⟩ | ⟨found, hfound, rfl⟩
        · exact .inl hheld
        · exact .inr (entry?_eq_some hfound).2.1
      · exact .inr (hsettled entry hbefore)
    rcases hwas with houtside | halive
    · exact isAlive_iff.mpr (.inl houtside)
    · exact isAlive_store hnodup halive fun old hold hrefers => hall old hold entry hmem hrefers

end Writes

/-- What a sweep finds, in every map that can come about. The size is the number of entries whose
keys are alive, no dead entry is left by then, and none by the time an entry has been removed,
exactly if the doomed entries are visited in order. Where they are, a write leaves a dead entry
exactly if its key was held by nothing but the value that the write replaces. -/
theorem dead_entries_gone_iff (h : Reached map) (held : ObjectRef → Bool) :
    (map.size held =
        map.entries.countP (fun entry => isAlive held (map.sweep held).entries entry.2.key) ↔
      Orderly held map.entries) ∧
    (isSettled held (map.sweep held).entries ↔ Orderly held map.entries) ∧
    (∀ o, isSettled (fun x => held x || (map.delete held (.object o)).1.any (·.refersTo x))
        (map.delete held (.object o)).2.entries ↔
      Orderly held map.entries) ∧
    ∀ o v, held o → Orderly held map.entries → ∃ map', map.set held (.object o) v = .ok map' ∧
      (isSettled held map'.entries ↔
        ∀ old, (o.eqlKey, old) ∈ (map.sweep held).entries → ∀ entry ∈ map'.entries,
          old.value.refersTo entry.2.key → isAlive held map'.entries entry.2.key) := by
  refine ⟨?_, isSettled_sweep_iff held map, fun o => ?_, fun o v hheld horderly => ?_⟩
  · rw [size_eq_countP_iff, isSettled_sweep_iff]
  · rw [isSettled_delete_iff h.nodup, isSettled_sweep_iff]
  · obtain ⟨stored, hset, hstored⟩ := set_object held map o v
    exact ⟨_, hset, isSettled_store_iff (h.sweep held).nodup
      ((isSettled_sweep_iff held map).mpr horderly) hheld v hstored⟩

private def heir : ObjectRef := ⟨0, 0, "Object", none⟩

private def holder : ObjectRef := ⟨1, 1, "Object", none⟩

private def estate : KeyEntry := ⟨heir, .integer 1⟩

private def bequest : KeyEntry := ⟨holder, .object heir⟩

/-- Two keys, of which one is the value of the other; it was written first. -/
def heirFirst : WeakKeyMap :=
  ⟨[(heir.eqlKey, estate), (holder.eqlKey, bequest)]⟩

def heirLast : WeakKeyMap :=
  ⟨[(holder.eqlKey, bequest), (heir.eqlKey, estate)]⟩

private theorem reached_heirFirst : Reached heirFirst := by
  have hestate : clear.set (fun _ => true) (.object heir) (.integer 1) =
    .ok ⟨[(heir.eqlKey, estate)]⟩ := rfl
  have hbequest : set (fun _ => true) (.object holder) (.object heir)
    ⟨[(heir.eqlKey, estate)]⟩ = .ok heirFirst := rfl
  exact .set (.set .start hestate) hbequest

/-- When both keys have been dropped, a sweep is right about the map only if it meets the heir last.
While both are held, a write leaves no dead entry. -/
theorem dead_entries_gone_iff_heir :
    ¬ Orderly (fun _ => false) heirFirst.entries ∧ Orderly (fun _ => false) heirLast.entries ∧
      ∃ map', heirLast.set (fun _ => true) (.object holder) .nil = .ok map' ∧
        isSettled (fun _ => true) map'.entries := by
  have hlast : Reached heirLast := reached_heirFirst.rearrange (.swap _ _ _)
  refine ⟨?_, ?_, ?_⟩
  · rw [← (dead_entries_gone_iff reached_heirFirst fun _ => false).1]
    decide
  · rw [← (dead_entries_gone_iff hlast fun _ => false).1]
    decide
  · obtain ⟨hsize, -, -, hset⟩ := dead_entries_gone_iff hlast fun _ => true
    obtain ⟨map', hmap, hsettled⟩ := hset holder .nil rfl (hsize.mp (by decide))
    exact ⟨map', hmap, hsettled.mpr fun _ _ _ _ _ => rfl⟩

/-- Nobody holds either key, but the size counts the heir, which is dead by then. -/
theorem heirFirst_size_counts_dead :
    Reached heirFirst ∧ heirFirst.size (fun _ => false) = 1 ∧
      heirFirst.entries.countP (fun entry =>
        isAlive (fun _ => false) (heirFirst.sweep fun _ => false).entries entry.2.key) = 0 ∧
      isSettled (fun _ => false) (heirFirst.sweep fun _ => false).entries = false :=
  ⟨reached_heirFirst, by decide, by decide, by decide⟩

end RubyRuntime.WeakKeyMap
