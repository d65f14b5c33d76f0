import RubyRuntime.Proofs.Lookup
import RubyRuntime.Weak.Map

/-!
# Histories of weak maps

A weak map is written to and swept while objects die and others come to live, possibly at the
address of a dead one. Whatever its table still holds, it shows a pair of live values exactly if the
second was stored last for the first and has not been removed since.
-/
namespace RubyRuntime.WeakMap

/-- A write that had an effect. -/
inductive Write where
  | stored (key value : Value)
  | removed (key : Value)

def Write.mentions (o : ObjectRef) : Write → Prop
  | stored key value => key = .object o ∨ value = .object o
  | removed key => key = .object o

/-- The value that was stored last for a key and has not been removed since. The newest write comes
first. -/
def lastStored (k : Value) : List Write → Option Value
  | [] => none
  | .stored key value :: earlier => if key = k then some value else lastStored k earlier
  | .removed key :: earlier => if key = k then none else lastStored k earlier

def Separate (alive : ObjectRef → Bool) : Prop :=
  ∀ o p, alive o → alive p → o.address = p.address → o = p

/-- The writes that have had an effect on a map, the newest first, with what is alive now. Only live
values are passed to an operation, and the table may be in any order. -/
inductive History : (ObjectRef → Bool) → List Write → WeakMap → Prop where
  | start {alive : ObjectRef → Bool} (hseparate : Separate alive) : History alive [] {}
  | age {alive alive' : ObjectRef → Bool} {writes : List Write} {map : WeakMap}
    (h : History alive writes map) (hseparate : Separate alive')
    (hnew : ∀ o, alive' o → alive o ∨ ∀ write ∈ writes, ¬ write.mentions o) :
    History alive' writes map
  | set {alive : ObjectRef → Bool} {writes : List Write} {map : WeakMap} {k v : Value}
    (h : History alive writes map) (hk : k.isAlive alive) (hv : v.isAlive alive) :
    History alive (.stored k v :: writes) (map.set alive k v)
  | delete {alive : ObjectRef → Bool} {writes : List Write} {map : WeakMap} {k v : Value}
    (h : History alive writes map) (hk : k.isAlive alive)
    (hfound : (map.delete alive k).1 = some v) :
    History alive (.removed k :: writes) (map.delete alive k).2
  | miss {alive : ObjectRef → Bool} {writes : List Write} {map : WeakMap} {k : Value}
    (h : History alive writes map) (hk : k.isAlive alive)
    (hmissed : (map.delete alive k).1 = none) : History alive writes (map.delete alive k).2
  | sweep {alive : ObjectRef → Bool} {writes : List Write} {map : WeakMap}
    (h : History alive writes map) : History alive writes (map.sweep alive)
  | rearrange {alive : ObjectRef → Bool} {writes : List Write} {map : WeakMap}
    {entries : List (IdentityKey × WeakEntry)} (h : History alive writes map)
    (hperm : map.entries.Perm entries) : History alive writes ⟨entries⟩

variable {alive alive' : ObjectRef → Bool} {writes : List Write} {map : WeakMap} {k v : Value}

theorem stored_of_lastStored (h : lastStored k writes = some v) : .stored k v ∈ writes := by
  induction writes with
  | nil => cases h
  | cons write earlier ih =>
      cases write with
      | stored key value =>
          simp only [lastStored] at h
          split at h
          · next hkey =>
            cases h
            exact hkey ▸ List.mem_cons_self
          · exact List.mem_cons_of_mem _ (ih h)
      | removed key =>
          simp only [lastStored] at h
          split at h
          · cases h
          · exact List.mem_cons_of_mem _ (ih h)

theorem Separate.eq_of_identityKey (h : Separate alive) {k' : Value} (hk : k.isAlive alive)
    (hk' : k'.isAlive alive) (heq : k.identityKey = k'.identityKey) : k = k' := by
  cases k <;> cases k'
  case object.object o p => rw [h o p hk hk' (IdentityKey.object.inj heq)]
  all_goals cases heq <;> rfl

/-- A map that agrees with the writes. What its table holds for dead values does not matter, as long
as it was written once. -/
structure Faithful (alive : ObjectRef → Bool) (writes : List Write) (map : WeakMap) : Prop where
  separate : Separate alive
  nodup : (map.entries.map Prod.fst).Nodup
  keyed : ∀ entry ∈ map.entries, entry.1 = entry.2.key.identityKey
  written : ∀ entry ∈ map.entries, .stored entry.2.key entry.2.value ∈ writes
  mem_iff : ∀ k v : Value, k.isAlive alive → v.isAlive alive →
    ((k.identityKey, ⟨k, v⟩) ∈ map.entries ↔ lastStored k writes = some v)

namespace Faithful

theorem start (h : Separate alive) : Faithful alive [] {} where
  separate := h
  nodup := List.nodup_nil
  keyed := fun _ hmem => by cases hmem
  written := fun _ hmem => by cases hmem
  mem_iff := fun k v _ _ => by simp [lastStored]

theorem sweep (h : Faithful alive writes map) : Faithful alive writes (map.sweep alive) where
  separate := h.separate
  nodup := h.nodup.sublist (List.filter_sublist.map _)
  keyed := fun entry hmem => h.keyed entry (List.mem_of_mem_filter hmem)
  written := fun entry hmem => h.written entry (List.mem_of_mem_filter hmem)
  mem_iff := fun k v hk hv => by
    rw [← h.mem_iff k v hk hv]
    simp [WeakMap.sweep, WeakEntry.isAlive, hk, hv]

theorem rearrange (h : Faithful alive writes map) {entries : List (IdentityKey × WeakEntry)}
    (hperm : map.entries.Perm entries) : Faithful alive writes ⟨entries⟩ where
  separate := h.separate
  nodup := (hperm.map _).nodup h.nodup
  keyed := fun entry hmem => h.keyed entry (hperm.mem_iff.mpr hmem)
  written := fun entry hmem => h.written entry (hperm.mem_iff.mpr hmem)
  mem_iff := fun k v hk hv => by rw [← h.mem_iff k v hk hv, hperm.mem_iff]

theorem age (h : Faithful alive writes map) (hseparate : Separate alive')
    (hnew : ∀ o, alive' o → alive o ∨ ∀ write ∈ writes, ¬ write.mentions o) :
    Faithful alive' writes map where
  separate := hseparate
  nodup := h.nodup
  keyed := h.keyed
  written := h.written
  mem_iff := fun k v hk hv => by
    -- Both values of a pair that was ever stored are older than the new objects.
    have holder : .stored k v ∈ writes → k.isAlive alive ∧ v.isAlive alive := by
      intro hstored
      constructor
      · cases k with
        | object o => exact (hnew o hk).resolve_right fun hnone => hnone _ hstored (.inl rfl)
        | _ => rfl
      · cases v with
        | object o => exact (hnew o hv).resolve_right fun hnone => hnone _ hstored (.inr rfl)
        | _ => rfl
    constructor
    · intro hmem
      obtain ⟨hk, hv⟩ := holder (h.written _ hmem)
      exact (h.mem_iff k v hk hv).mp hmem
    · intro hlast
      obtain ⟨hk, hv⟩ := holder (stored_of_lastStored hlast)
      exact (h.mem_iff k v hk hv).mpr hlast

theorem set (h : Faithful alive writes map) (hk : k.isAlive alive) :
    Faithful alive (.stored k v :: writes) (map.set alive k v) := by
  have hswept := h.sweep
  have hentries : (map.set alive k v).entries =
      (map.sweep alive).entries.filter (fun entry => entry.1 ≠ k.identityKey) ++
        [(k.identityKey, ⟨k, v⟩)] := rfl
  have hcases : ∀ {entry}, entry ∈ (map.set alive k v).entries ↔
      (entry ∈ (map.sweep alive).entries ∧ entry.1 ≠ k.identityKey) ∨
        entry = (k.identityKey, ⟨k, v⟩) := by
    simp [hentries]
  refine ⟨h.separate, ?_, ?_, ?_, ?_⟩
  · rw [hentries, List.map_append, List.nodup_append]
    refine ⟨hswept.nodup.sublist (List.filter_sublist.map _), by simp, ?_⟩
    intro a ha b hb heq
    obtain ⟨entry, hmem, rfl⟩ := List.mem_map.mp ha
    exact (by simpa using (List.mem_filter.mp hmem).2 : entry.1 ≠ k.identityKey)
      (heq.trans (by simpa using hb))
  · intro entry hmem
    rcases hcases.mp hmem with ⟨hbefore, -⟩ | rfl
    · exact hswept.keyed entry hbefore
    · rfl
  · intro entry hmem
    rcases hcases.mp hmem with ⟨hbefore, -⟩ | rfl
    · exact List.mem_cons_of_mem _ (hswept.written entry hbefore)
    · exact List.mem_cons_self
  · intro k' v' hk' hv'
    rw [hcases, hswept.mem_iff k' v' hk' hv', lastStored]
    by_cases hkey : k = k'
    · subst hkey
      simp [eq_comm]
    · have hne : k'.identityKey ≠ k.identityKey :=
        fun heq => hkey (h.separate.eq_of_identityKey hk hk' heq.symm)
      simp [hkey, hne]

theorem get?_eq_some_iff (h : Faithful alive writes map) (hk : k.isAlive alive) :
    map.get? alive k = some v ↔ lastStored k writes = some v ∧ v.isAlive alive := by
  rw [get?, Option.bind_eq_some_iff]
  simp only [lookup_eq_some_iff_mem h.nodup]
  constructor
  · rintro ⟨⟨key, value⟩, hmem, hvalue⟩
    simp only [WeakEntry.valueOf?, Value.identical, Option.ite_none_right_eq_some,
      Bool.and_eq_true, beq_iff_eq, Option.some.injEq] at hvalue
    obtain ⟨⟨⟨hkey, hidentical⟩, hv⟩, rfl⟩ := hvalue
    cases h.separate.eq_of_identityKey hkey hk hidentical
    exact ⟨(h.mem_iff _ _ hk hv).mp hmem, hv⟩
  · rintro ⟨hlast, hv⟩
    refine ⟨⟨k, v⟩, (h.mem_iff k v hk hv).mpr hlast, ?_⟩
    simp [WeakEntry.valueOf?, Value.identical, hk, hv]

theorem get?_sweep (h : Faithful alive writes map) (hk : k.isAlive alive) :
    (map.sweep alive).get? alive k = map.get? alive k := by
  ext v
  rw [h.sweep.get?_eq_some_iff hk, h.get?_eq_some_iff hk]

theorem delete_eq (h : Faithful alive writes map) (hk : k.isAlive alive) :
    map.delete alive k = (map.get? alive k, if (map.get? alive k).isSome then
      ⟨(map.sweep alive).entries.filter fun entry => entry.1 ≠ k.identityKey⟩
      else map.sweep alive) := by
  rw [← h.get?_sweep hk]
  simp only [WeakMap.delete]
  cases (map.sweep alive).get? alive k <;> rfl

theorem remove (h : Faithful alive writes map) (hk : k.isAlive alive) :
    Faithful alive (.removed k :: writes)
      ⟨map.entries.filter fun entry => entry.1 ≠ k.identityKey⟩ where
  separate := h.separate
  nodup := h.nodup.sublist (List.filter_sublist.map _)
  keyed := fun entry hmem => h.keyed entry (List.mem_of_mem_filter hmem)
  written := fun entry hmem =>
    List.mem_cons_of_mem _ (h.written entry (List.mem_of_mem_filter hmem))
  mem_iff := fun k' v' hk' hv' => by
    rw [List.mem_filter, h.mem_iff k' v' hk' hv', lastStored]
    by_cases hkey : k = k'
    · subst hkey
      simp
    · have hne : k'.identityKey ≠ k.identityKey :=
        fun heq => hkey (h.separate.eq_of_identityKey hk hk' heq.symm)
      simp [hkey, hne]

theorem delete (h : Faithful alive writes map) (hk : k.isAlive alive)
    (hfound : (map.delete alive k).1 = some v) :
    Faithful alive (.removed k :: writes) (map.delete alive k).2 := by
  rw [h.delete_eq hk] at hfound ⊢
  have hsome : (map.get? alive k).isSome := Option.isSome_of_eq_some hfound
  rw [if_pos hsome]
  exact h.sweep.remove hk

theorem miss (h : Faithful alive writes map) (hk : k.isAlive alive)
    (hmissed : (map.delete alive k).1 = none) :
    Faithful alive writes (map.delete alive k).2 := by
  rw [h.delete_eq hk] at hmissed ⊢
  have hnone : ¬ (map.get? alive k).isSome := Option.not_isSome_iff_eq_none.mpr hmissed
  rw [if_neg hnone]
  exact h.sweep

theorem get?_delete (h : Faithful alive writes map) (hk : k.isAlive alive) {k' : Value}
    (hk' : k'.isAlive alive) :
    (map.delete alive k).2.get? alive k' = if k' = k then none else map.get? alive k' := by
  cases hfound : (map.delete alive k).1 with
  | some v =>
      ext u
      rw [(h.delete hk hfound).get?_eq_some_iff hk', lastStored]
      split
      · next hkey => simp [hkey]
      · next hkey => rw [if_neg (Ne.symm hkey), h.get?_eq_some_iff hk']
  | none =>
      have hsame : (map.delete alive k).2.get? alive k' = map.get? alive k' := by
        ext u
        rw [(h.miss hk hfound).get?_eq_some_iff hk', h.get?_eq_some_iff hk']
      rw [hsame]
      split
      · next hkey =>
        rw [h.delete_eq hk] at hfound
        rw [hkey]
        exact hfound
      · rfl

theorem mem_pairs_iff (h : Faithful alive writes map) :
    (k, v) ∈ map.pairs alive ↔
      lastStored k writes = some v ∧ k.isAlive alive ∧ v.isAlive alive := by
  simp only [pairs, List.mem_map, WeakMap.sweep, List.mem_filter, WeakEntry.isAlive,
    Bool.and_eq_true]
  constructor
  · rintro ⟨⟨key, entry⟩, ⟨hmem, hk, hv⟩, heq⟩
    cases heq
    refine ⟨(h.mem_iff _ _ hk hv).mp ?_, hk, hv⟩
    exact h.keyed _ hmem ▸ hmem
  · rintro ⟨hlast, hk, hv⟩
    exact ⟨(k.identityKey, ⟨k, v⟩), ⟨(h.mem_iff k v hk hv).mpr hlast, hk, hv⟩, rfl⟩

theorem nodup_pairs (h : Faithful alive writes map) : ((map.pairs alive).map Prod.fst).Nodup := by
  have hkeys : ((map.pairs alive).map Prod.fst).map Value.identityKey =
      (map.sweep alive).entries.map Prod.fst := by
    simp only [pairs, List.map_map]
    refine List.map_congr_left fun entry hmem => ?_
    exact (h.sweep.keyed entry hmem).symm
  exact .of_map _ (hkeys ▸ h.sweep.nodup)

end Faithful

theorem History.faithful (h : History alive writes map) : Faithful alive writes map := by
  induction h with
  | start hseparate => exact .start hseparate
  | age _ hseparate hnew ih => exact ih.age hseparate hnew
  | set _ hk _ ih => exact ih.set hk
  | delete _ hk hfound ih => exact ih.delete hk hfound
  | miss _ hk hmissed ih => exact ih.miss hk hmissed
  | sweep _ ih => exact ih.sweep
  | rearrange _ hperm ih => exact ih.rearrange hperm

end RubyRuntime.WeakMap
