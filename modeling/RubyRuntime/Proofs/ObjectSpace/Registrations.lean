import RubyRuntime.Proofs.Lookup
import RubyRuntime.Proofs.ObjectSpace.Requests

/-!
# Registrations of finalizers

Every definition of a finalizer is a registration of its own. A plain list of the registrations that
are outstanding says what should become of each: it is removed with its object's others, or taken by
a run once its object is dead. The table keeps finalizers by address, and an address may pass from a
dead object to a new one. Main result: over every run the table holds exactly what is outstanding.
-/
namespace RubyRuntime

variable {φ : Type}

structure Registration (φ : Type) where
  number : Nat
  object : ObjectRef
  id : Nat
  finalizer : φ

def Registration.call (r : Registration φ) : Nat × φ :=
  (r.id, r.finalizer)

namespace FinalizerTable

variable {alive alive' : ObjectRef → Bool} {table : FinalizerTable φ} {o : ObjectRef} {id : Nat}
  {finalizer : φ} {entry : FinalizerEntry φ}

/-- All entries, of which those put aside come first. -/
def all (table : FinalizerTable φ) : List (FinalizerEntry φ) :=
  table.orphaned ++ table.entries.map (·.2)

theorem mem_all : entry ∈ table.all ↔ entry ∈ table.orphaned ∨ ∃ a, (a, entry) ∈ table.entries := by
  simp [all]

theorem define_of_live (h : table.entries.lookup o.address = some entry)
    (hlive : alive entry.object) :
    table.define alive o id finalizer = { table with
      entries := table.entries.filter (fun e => e.1 ≠ o.address) ++
        [(o.address, { entry with finalizers := entry.finalizers ++ [finalizer] })] } := by
  simp only [define, h, hlive, if_true]
  rfl

theorem define_of_dead (h : table.entries.lookup o.address = some entry)
    (hdead : alive entry.object = false) :
    table.define alive o id finalizer =
      { entries := table.entries.filter (fun e => e.1 ≠ o.address) ++
          [(o.address, ⟨o, id, [finalizer]⟩)]
        orphaned := table.orphaned ++ [entry] } := by
  simp only [define, h, hdead]
  rfl

theorem define_of_none (h : table.entries.lookup o.address = none) :
    table.define alive o id finalizer =
      { table with entries := table.entries ++ [(o.address, ⟨o, id, [finalizer]⟩)] } := by
  simp only [define, h]

theorem undefine_of_own (h : table.entries.lookup o.address = some entry)
    (hlive : alive entry.object) (hserial : entry.object.serial = o.serial) :
    table.undefine alive o = (entry.finalizers.length,
      { table with entries := table.entries.filter fun e => e.1 ≠ o.address }) := by
  simp only [undefine, h, hlive, hserial, beq_self_eq_true, Bool.and_true, if_true]
  rfl

theorem all_concat (entries : List (Nat × FinalizerEntry φ)) (orphaned : List (FinalizerEntry φ))
    (a : Nat) (entry : FinalizerEntry φ) :
    ({ entries := entries ++ [(a, entry)], orphaned } : FinalizerTable φ).all.Perm
      (entry :: (orphaned ++ entries.map (·.2))) := by
  rw [all, List.map_append, ← List.append_assoc]
  exact List.perm_append_singleton entry _

theorem all_perm (hnodup : (table.entries.map Prod.fst).Nodup)
    (h : table.entries.lookup o.address = some entry) :
    table.all.Perm (entry :: (table.orphaned ++
      (table.entries.filter fun e => e.1 ≠ o.address).map (·.2))) := by
  obtain ⟨before, after, heq, -⟩ := List.lookup_eq_some_iff.mp h
  have hfilter : table.entries.filter (fun e => e.1 ≠ o.address) = before ++ after := by
    rw [heq, List.map_append, List.map_cons, List.nodup_append, List.nodup_cons] at hnodup
    obtain ⟨-, ⟨hafter, -⟩, hbefore⟩ := hnodup
    rw [heq, List.filter_append, List.filter_cons_of_neg (by simp), List.filter_eq_self.mpr,
      List.filter_eq_self.mpr]
    · intro e he
      have hne : e.1 ≠ o.address := by
        intro hkey
        exact hafter (List.mem_map.mpr ⟨e, he, hkey⟩)
      simpa using hne
    · intro e he
      have hne := hbefore e.1 (List.mem_map_of_mem he) o.address List.mem_cons_self
      simpa using hne
  rw [hfilter, all, heq, List.map_append, List.map_append, List.map_cons, ← List.append_assoc,
    ← List.append_assoc]
  exact List.perm_middle

theorem takeDead_fst (h : ∀ entry ∈ table.orphaned, alive entry.object = false) :
    (table.takeDead alive).1 = table.all.filter fun entry => !alive entry.object := by
  have hall : table.orphaned.filter (fun entry => !alive entry.object) = table.orphaned := by
    rw [List.filter_eq_self]
    intro entry hmem
    simp [h entry hmem]
  rw [takeDead, all, List.filter_append, List.filter_map, hall]
  rfl

theorem all_takeDead (h : ∀ entry ∈ table.orphaned, alive entry.object = false) :
    (table.takeDead alive).2.all = table.all.filter fun entry => alive entry.object := by
  have hnone : table.orphaned.filter (fun entry => alive entry.object) = [] := by
    rw [List.filter_eq_nil_iff]
    intro entry hmem
    simp [h entry hmem]
  rw [takeDead, all, all, List.filter_append, List.filter_map, hnone]
  rfl

end FinalizerTable

def registeredOn (o : ObjectRef) (rs : List (Registration φ)) : List (Registration φ) :=
  rs.filter (·.object = o)

/-- The calls are those of the registrations, each made once, those of one object oldest first. -/
def InTurn (calls : List (Nat × φ)) (rs : List (Registration φ)) : Prop :=
  ∃ order : List (Registration φ), order.Perm rs ∧
    (∀ o, registeredOn o order = registeredOn o rs) ∧ calls = order.map (·.call)

theorem InTurn.length_eq {calls : List (Nat × φ)} {rs : List (Registration φ)}
    (h : InTurn calls rs) : calls.length = rs.length := by
  obtain ⟨order, hperm, -, rfl⟩ := h
  rw [List.length_map, hperm.length_eq]

/-- The entries list the registrations, each object's once and in order, under its id. -/
structure Lists (idOf : ObjectRef → Nat) (entries : List (FinalizerEntry φ))
    (rs : List (Registration φ)) : Prop where
  nodup : (entries.map (·.object)).Nodup
  id_eq : ∀ entry ∈ entries, entry.objectId = idOf entry.object ∧ idOf entry.object ≠ 0
  finalizers_eq : ∀ entry ∈ entries,
    entry.finalizers = (registeredOn entry.object rs).map (·.finalizer)
  inhabited : ∀ entry ∈ entries, ∃ r ∈ rs, r.object = entry.object
  covered : ∀ r ∈ rs, r.id = idOf r.object ∧ ∃ entry ∈ entries, entry.object = r.object

namespace Lists

variable {idOf idOf' : ObjectRef → Nat} {entries rest : List (FinalizerEntry φ)}
  {entry : FinalizerEntry φ} {rs : List (Registration φ)} {r : Registration φ} {o : ObjectRef}

theorem start (idOf : ObjectRef → Nat) : Lists idOf ([] : List (FinalizerEntry φ)) [] where
  nodup := List.nodup_nil
  id_eq := by simp
  finalizers_eq := by simp
  inhabited := by simp
  covered := by simp

theorem perm (h : Lists idOf entries rs) (hperm : entries.Perm rest) : Lists idOf rest rs where
  nodup := (hperm.map _).nodup h.nodup
  id_eq := fun entry hmem => h.id_eq entry (hperm.mem_iff.mpr hmem)
  finalizers_eq := fun entry hmem => h.finalizers_eq entry (hperm.mem_iff.mpr hmem)
  inhabited := fun entry hmem => h.inhabited entry (hperm.mem_iff.mpr hmem)
  covered := fun r hr => by
    obtain ⟨hid, entry, hmem, hobject⟩ := h.covered r hr
    exact ⟨hid, entry, hperm.mem_iff.mp hmem, hobject⟩

theorem of_ids (h : Lists idOf entries rs) (hids : ∀ o, idOf o ≠ 0 → idOf' o = idOf o) :
    Lists idOf' entries rs where
  nodup := h.nodup
  id_eq := fun entry hmem => by
    obtain ⟨heq, hne⟩ := h.id_eq entry hmem
    rw [hids _ hne]
    exact ⟨heq, hne⟩
  finalizers_eq := h.finalizers_eq
  inhabited := h.inhabited
  covered := fun r hr => by
    obtain ⟨hid, entry, hmem, hobject⟩ := h.covered r hr
    rw [hids _ (hobject ▸ (h.id_eq entry hmem).2)]
    exact ⟨hid, entry, hmem, hobject⟩

theorem registeredOn_eq_nil (h : Lists idOf entries rs) (ho : ∀ entry ∈ entries, entry.object ≠ o) :
    registeredOn o rs = [] := by
  rw [registeredOn, List.filter_eq_nil_iff]
  intro r hr hobject
  obtain ⟨-, entry, hmem, heq⟩ := h.covered r hr
  exact ho entry hmem (heq.trans (by simpa using hobject))

theorem registeredOn_append (h : r.object ≠ o) :
    registeredOn o (rs ++ [r]) = registeredOn o rs := by
  simp [registeredOn, h]

theorem extend (h : Lists idOf (entry :: rest) rs) (hobject : r.object = entry.object)
    (hid : r.id = idOf r.object) :
    Lists idOf ({ entry with finalizers := entry.finalizers ++ [r.finalizer] } :: rest)
      (rs ++ [r]) := by
  have hother : ∀ other ∈ rest, r.object ≠ other.object := by
    intro other hmem heq
    have hnodup := h.nodup
    rw [List.map_cons, List.nodup_cons] at hnodup
    exact hnodup.1 (hobject ▸ heq ▸ List.mem_map_of_mem hmem)
  refine ⟨h.nodup, ?_, ?_, ?_, ?_⟩
  · intro e he
    rcases List.mem_cons.mp he with rfl | he
    · exact h.id_eq entry List.mem_cons_self
    · exact h.id_eq e (List.mem_cons_of_mem _ he)
  · intro e he
    rcases List.mem_cons.mp he with rfl | he
    · show entry.finalizers ++ [r.finalizer] = _
      rw [h.finalizers_eq entry List.mem_cons_self]
      simp [registeredOn, hobject]
    · rw [registeredOn_append (hother e he)]
      exact h.finalizers_eq e (List.mem_cons_of_mem _ he)
  · intro e he
    rcases List.mem_cons.mp he with rfl | he
    · exact ⟨r, by simp, hobject⟩
    · obtain ⟨s, hs, heq⟩ := h.inhabited e (List.mem_cons_of_mem _ he)
      exact ⟨s, List.mem_append_left _ hs, heq⟩
  · intro s hs
    rcases List.mem_append.mp hs with hs | hs
    · obtain ⟨hid, e, he, heq⟩ := h.covered s hs
      rcases List.mem_cons.mp he with rfl | he
      · exact ⟨hid, _, List.mem_cons_self, heq⟩
      · exact ⟨hid, e, List.mem_cons_of_mem _ he, heq⟩
    · rw [List.mem_singleton.mp hs]
      exact ⟨hid, _, List.mem_cons_self, hobject.symm⟩

theorem insert (h : Lists idOf entries rs) (ho : ∀ entry ∈ entries, entry.object ≠ r.object)
    (hid : r.id = idOf r.object) (hne : idOf r.object ≠ 0) :
    Lists idOf (⟨r.object, r.id, [r.finalizer]⟩ :: entries) (rs ++ [r]) := by
  refine ⟨?_, ?_, ?_, ?_, ?_⟩
  · rw [List.map_cons, List.nodup_cons]
    refine ⟨fun hmem => ?_, h.nodup⟩
    obtain ⟨entry, hentry, heq⟩ := List.mem_map.mp hmem
    exact ho entry hentry heq
  · intro e he
    rcases List.mem_cons.mp he with rfl | he
    · exact ⟨hid, hne⟩
    · exact h.id_eq e he
  · intro e he
    rcases List.mem_cons.mp he with rfl | he
    · have hnil := h.registeredOn_eq_nil ho
      simp only [registeredOn] at hnil
      simp [registeredOn, hnil]
    · rw [registeredOn_append (ho e he).symm]
      exact h.finalizers_eq e he
  · intro e he
    rcases List.mem_cons.mp he with rfl | he
    · exact ⟨r, by simp, rfl⟩
    · obtain ⟨s, hs, heq⟩ := h.inhabited e he
      exact ⟨s, List.mem_append_left _ hs, heq⟩
  · intro s hs
    rcases List.mem_append.mp hs with hs | hs
    · obtain ⟨hid, e, he, heq⟩ := h.covered s hs
      exact ⟨hid, e, List.mem_cons_of_mem _ he, heq⟩
    · rw [List.mem_singleton.mp hs]
      exact ⟨hid, _, List.mem_cons_self, rfl⟩

theorem keep (h : Lists idOf entries rs) (p : ObjectRef → Bool) :
    Lists idOf (entries.filter fun entry => p entry.object) (rs.filter fun r => p r.object) where
  nodup := h.nodup.sublist (List.filter_sublist.map _)
  id_eq := fun entry hmem => h.id_eq entry (List.mem_of_mem_filter hmem)
  finalizers_eq := fun entry hmem => by
    obtain ⟨hmem, hp⟩ := List.mem_filter.mp hmem
    rw [h.finalizers_eq entry hmem, registeredOn, registeredOn, List.filter_filter]
    congr 1
    refine List.filter_congr fun r _ => ?_
    by_cases heq : r.object = entry.object
    · simp [heq, hp]
    · simp [heq]
  inhabited := fun entry hmem => by
    obtain ⟨hmem, hp⟩ := List.mem_filter.mp hmem
    obtain ⟨r, hr, heq⟩ := h.inhabited entry hmem
    exact ⟨r, List.mem_filter.mpr ⟨hr, by rw [heq]; exact hp⟩, heq⟩
  covered := fun r hr => by
    obtain ⟨hr, hp⟩ := List.mem_filter.mp hr
    obtain ⟨hid, entry, hmem, heq⟩ := h.covered r hr
    exact ⟨hid, entry, List.mem_filter.mpr ⟨hmem, by rw [heq]; exact hp⟩, heq⟩

/-- Objects that are listed once and include those of all registrations divide them. -/
theorem flatMap_registeredOn_perm {os : List ObjectRef} (hnodup : os.Nodup)
    (h : ∀ r ∈ rs, r.object ∈ os) : (os.flatMap fun o => registeredOn o rs).Perm rs := by
  induction os generalizing rs with
  | nil =>
      cases rs with
      | nil => exact .refl _
      | cons r rs => cases h r List.mem_cons_self
  | cons o os ih =>
      rw [List.nodup_cons] at hnodup
      have hrest : ∀ r ∈ rs.filter (fun r => !decide (r.object = o)), r.object ∈ os := by
        intro r hr
        obtain ⟨hr, hne⟩ := List.mem_filter.mp hr
        exact (List.mem_cons.mp (h r hr)).resolve_left (by simpa using hne)
      have hsame :
          (os.flatMap fun p => registeredOn p (rs.filter fun r => !decide (r.object = o))) =
            os.flatMap fun p => registeredOn p rs := by
        refine List.flatMap_congr fun p hp => ?_
        have hne : p ≠ o := fun heq => hnodup.1 (heq ▸ hp)
        rw [registeredOn, registeredOn, List.filter_filter]
        refine List.filter_congr fun r _ => ?_
        by_cases heq : r.object = p
        · simp [heq, hne]
        · simp [heq]
      have hperm := ih hnodup.2 hrest
      rw [hsame] at hperm
      rw [List.flatMap_cons]
      exact (hperm.append_left _).trans (List.filter_append_perm _ rs)

theorem registeredOn_flatMap {os : List ObjectRef} (hnodup : os.Nodup) (o : ObjectRef) :
    registeredOn o (os.flatMap fun p => registeredOn p rs) =
      if o ∈ os then registeredOn o rs else [] := by
  have hsplit : ∀ p, registeredOn o (registeredOn p rs) =
      if p = o then registeredOn o rs else [] := by
    intro p
    split
    · next heq => simp [registeredOn, heq, List.filter_filter]
    · next hne =>
      rw [registeredOn, List.filter_eq_nil_iff]
      intro r hr hobject
      have hp : r.object = p := by simpa using (List.mem_filter.mp hr).2
      exact hne (hp.symm.trans (by simpa using hobject))
  induction os with
  | nil => rfl
  | cons p os ih =>
      rw [List.nodup_cons] at hnodup
      have hrest := ih hnodup.2
      rw [registeredOn] at hrest
      rw [List.flatMap_cons, registeredOn, List.filter_append, hrest, ← registeredOn, hsplit]
      by_cases heq : p = o
      · subst heq
        simp [hnodup.1]
      · simp [heq, Ne.symm heq]

theorem finalizers_map_eq (h : Lists idOf entries rs) (hmem : entry ∈ entries) :
    entry.finalizers.map (entry.objectId, ·) = (registeredOn entry.object rs).map (·.call) := by
  rw [h.finalizers_eq entry hmem, List.map_map]
  refine List.map_congr_left fun r hr => ?_
  obtain ⟨hr, hobject⟩ := List.mem_filter.mp hr
  have hobject : r.object = entry.object := by simpa using hobject
  have hid : r.id = entry.objectId := by
    rw [(h.covered r hr).1, hobject, (h.id_eq entry hmem).1]
  simp [Registration.call, hid]

theorem inTurn_calls (h : Lists idOf entries rs) : InTurn (FinalizerTable.calls entries) rs := by
  have hsorted := h.perm (entries.mergeSort_perm fun a b => a.objectId ≤ b.objectId).symm
  rw [FinalizerTable.calls]
  generalize entries.mergeSort (fun a b => a.objectId ≤ b.objectId) = sorted at hsorted
  have hcovered : ∀ r ∈ rs, r.object ∈ sorted.map (·.object) := by
    intro r hr
    obtain ⟨-, entry, hmem, heq⟩ := hsorted.covered r hr
    exact List.mem_map.mpr ⟨entry, hmem, heq⟩
  refine ⟨(sorted.map (·.object)).flatMap fun o => registeredOn o rs,
    flatMap_registeredOn_perm hsorted.nodup hcovered, fun o => ?_, ?_⟩
  · rw [registeredOn_flatMap hsorted.nodup]
    split
    · rfl
    · next hnone =>
      refine (hsorted.registeredOn_eq_nil fun entry hmem heq => hnone ?_).symm
      exact List.mem_map.mpr ⟨entry, hmem, heq⟩
  · rw [List.map_flatMap, List.flatMap_map]
    exact List.flatMap_congr fun entry hmem => hsorted.finalizers_map_eq hmem

end Lists

/-- The table holds what is outstanding: what it has put aside belongs to dead objects, and the rest
stands under the addresses of its objects. -/
structure Tracks (alive : ObjectRef → Bool) (idOf : ObjectRef → Nat) (table : FinalizerTable φ)
    (outstanding : List (Registration φ)) : Prop where
  keyed : ∀ e ∈ table.entries, e.1 = e.2.object.address
  nodup_keys : (table.entries.map Prod.fst).Nodup
  orphaned_dead : ∀ entry ∈ table.orphaned, alive entry.object = false
  lists : Lists idOf table.all outstanding

namespace Tracks

variable {alive alive' : ObjectRef → Bool} {idOf idOf' : ObjectRef → Nat} {table : FinalizerTable φ}
  {outstanding : List (Registration φ)} {r : Registration φ} {o : ObjectRef}

theorem start (alive : ObjectRef → Bool) (idOf : ObjectRef → Nat) :
    Tracks alive idOf ({} : FinalizerTable φ) [] :=
  ⟨by simp, List.nodup_nil, by simp, .start idOf⟩

theorem of_ids (h : Tracks alive idOf table outstanding)
    (hids : ∀ o, idOf o ≠ 0 → idOf' o = idOf o) : Tracks alive idOf' table outstanding :=
  ⟨h.keyed, h.nodup_keys, h.orphaned_dead, h.lists.of_ids hids⟩

theorem age (h : Tracks alive idOf table outstanding)
    (halive : ∀ entry ∈ table.all, alive entry.object = false → alive' entry.object = false) :
    Tracks alive' idOf table outstanding :=
  ⟨h.keyed, h.nodup_keys, fun entry hmem =>
    halive entry (FinalizerTable.mem_all.mpr (.inl hmem)) (h.orphaned_dead entry hmem), h.lists⟩

/-- The entry at the address of a live object is its own; where there is none, or one of a dead
object, it has none at all. -/
theorem lookup_cases (h : Tracks alive idOf table outstanding) (ho : alive o)
    (hseparate : ∀ p, alive p → p.address = o.address → p = o) :
    (∃ entry, table.entries.lookup o.address = some entry ∧ entry.object = o) ∨
      (∀ entry ∈ table.all, entry.object ≠ o) ∧
        ∀ entry, table.entries.lookup o.address = some entry → alive entry.object = false := by
  by_cases hown : ∃ entry, table.entries.lookup o.address = some entry ∧ entry.object = o
  · exact .inl hown
  · refine .inr ⟨fun entry hentry heq => ?_, fun entry hlookup => ?_⟩
    · rcases FinalizerTable.mem_all.mp hentry with horphaned | ⟨a, hlisted⟩
      · rw [← heq, h.orphaned_dead entry horphaned] at ho
        cases ho
      · have hkey : a = o.address := heq ▸ h.keyed _ hlisted
        rw [hkey] at hlisted
        exact hown ⟨entry, (lookup_eq_some_iff_mem h.nodup_keys).mpr hlisted, heq⟩
    · rw [Bool.eq_false_iff]
      intro hlive
      have haddress : o.address = entry.object.address := h.keyed _ (mem_of_lookup hlookup)
      exact hown ⟨entry, hlookup, hseparate _ hlive haddress.symm⟩

theorem nodup_filter (h : Tracks alive idOf table outstanding) (a : Nat) :
    ((table.entries.filter fun e => e.1 ≠ a).map Prod.fst).Nodup ∧
      a ∉ (table.entries.filter fun e => e.1 ≠ a).map Prod.fst := by
  refine ⟨h.nodup_keys.sublist (List.filter_sublist.map _), fun hmem => ?_⟩
  obtain ⟨e, he, heq⟩ := List.mem_map.mp hmem
  simpa [heq] using (List.mem_filter.mp he).2

private theorem keyed_concat {entries : List (Nat × FinalizerEntry φ)} {a : Nat}
    {entry : FinalizerEntry φ} (h : ∀ e ∈ entries, e.1 = e.2.object.address)
    (ha : a = entry.object.address) :
    ∀ e ∈ entries ++ [(a, entry)], e.1 = e.2.object.address := by
  intro e he
  rcases List.mem_append.mp he with he | he
  · exact h e he
  · rw [List.mem_singleton.mp he]
    exact ha

private theorem nodup_concat {entries : List (Nat × FinalizerEntry φ)} {a : Nat}
    {entry : FinalizerEntry φ} (h : (entries.map Prod.fst).Nodup) (ha : a ∉ entries.map Prod.fst) :
    ((entries ++ [(a, entry)]).map Prod.fst).Nodup := by
  rw [List.map_append, List.nodup_append]
  refine ⟨h, by simp, fun x hx y hy heq => ha ?_⟩
  have hlast : y = a := by simpa using hy
  exact hlast ▸ heq ▸ hx

theorem define (h : Tracks alive idOf table outstanding) (ho : alive r.object)
    (hseparate : ∀ p, alive p → p.address = r.object.address → p = r.object)
    (hid : r.id = idOf r.object) (hne : idOf r.object ≠ 0) :
    Tracks alive idOf (table.define alive r.object r.id r.finalizer) (outstanding ++ [r]) := by
  have hkeyed : ∀ e ∈ table.entries.filter (fun e => e.1 ≠ r.object.address),
      e.1 = e.2.object.address := fun e he => h.keyed e (List.mem_of_mem_filter he)
  obtain ⟨hnodup, hfresh⟩ := h.nodup_filter r.object.address
  rcases h.lookup_cases ho hseparate with ⟨entry, hlookup, hobject⟩ | ⟨hnone, hdead⟩
  · have hlive : alive entry.object := hobject ▸ ho
    rw [FinalizerTable.define_of_live hlookup hlive]
    refine ⟨keyed_concat hkeyed (congrArg ObjectRef.address hobject.symm),
      nodup_concat hnodup hfresh, h.orphaned_dead, ?_⟩
    have hextended := (h.lists.perm (FinalizerTable.all_perm h.nodup_keys hlookup)).extend
      hobject.symm hid
    exact hextended.perm (FinalizerTable.all_concat _ _ _ _).symm
  · have hinserted := h.lists.insert hnone hid hne
    cases hlookup : table.entries.lookup r.object.address with
    | none =>
        rw [FinalizerTable.define_of_none hlookup]
        refine ⟨keyed_concat h.keyed rfl, nodup_concat h.nodup_keys ?_, h.orphaned_dead,
          hinserted.perm (FinalizerTable.all_concat _ _ _ _).symm⟩
        intro hmem
        obtain ⟨e, he, heq⟩ := List.mem_map.mp hmem
        rw [List.lookup_eq_none_iff] at hlookup
        simpa [heq] using hlookup e he
    | some entry =>
        have hentry := hdead entry hlookup
        rw [FinalizerTable.define_of_dead hlookup hentry]
        refine ⟨keyed_concat hkeyed rfl, nodup_concat hnodup hfresh, ?_, hinserted.perm ?_⟩
        · intro e he
          rcases List.mem_append.mp he with he | he
          · exact h.orphaned_dead e he
          · rw [List.mem_singleton.mp he, hentry]
        · have hold := FinalizerTable.all_perm h.nodup_keys hlookup
          have hmoved : (table.orphaned ++ [entry] ++
              (table.entries.filter fun e => e.1 ≠ r.object.address).map (·.2)).Perm table.all := by
            rw [List.append_assoc]
            exact List.perm_middle.trans hold.symm
          exact (hmoved.symm.cons _).trans (FinalizerTable.all_concat _ _ _ _).symm

theorem undefine (h : Tracks alive idOf table outstanding) (ho : alive o)
    (hseparate : ∀ p, alive p → p.address = o.address → p = o) :
    (table.undefine alive o).1 = (registeredOn o outstanding).length ∧
      Tracks alive idOf (table.undefine alive o).2
        (outstanding.filter fun r => r.object ≠ o) := by
  rcases h.lookup_cases ho hseparate with ⟨entry, hlookup, rfl⟩ | ⟨hnone, hdead⟩
  · rw [FinalizerTable.undefine_of_own hlookup ho rfl]
    have hlists := h.lists.perm (FinalizerTable.all_perm h.nodup_keys hlookup)
    refine ⟨?_, fun e he => h.keyed e (List.mem_of_mem_filter he), (h.nodup_filter _).1,
      h.orphaned_dead, ?_⟩
    · rw [hlists.finalizers_eq entry List.mem_cons_self, List.length_map]
    · have hkept := hlists.keep fun p => p ≠ entry.object
      rw [List.filter_cons_of_neg (by simp), List.filter_eq_self.mpr] at hkept
      · exact hkept
      · intro e he
        have hnodup := hlists.nodup
        rw [List.map_cons, List.nodup_cons] at hnodup
        have hne : e.object ≠ entry.object :=
          fun heq => hnodup.1 (List.mem_map.mpr ⟨e, he, heq⟩)
        simpa using hne
  · have hnothing := h.lists.registeredOn_eq_nil hnone
    have hsame : table.undefine alive o = (0, table) := by
      cases hlookup : table.entries.lookup o.address with
      | none => simp only [FinalizerTable.undefine, hlookup]
      | some entry => simp [FinalizerTable.undefine, hlookup, hdead entry hlookup]
    rw [hsame, hnothing]
    refine ⟨rfl, ?_⟩
    rw [List.filter_eq_self.mpr]
    · exact h
    · intro r hr
      obtain ⟨-, entry, hmem, heq⟩ := h.lists.covered r hr
      simpa using heq ▸ hnone entry hmem

theorem takeDead (h : Tracks alive idOf table outstanding) :
    Lists idOf (table.takeDead alive).1 (outstanding.filter fun r => !alive r.object) ∧
      Tracks alive idOf (table.takeDead alive).2 (outstanding.filter fun r => alive r.object) := by
  rw [FinalizerTable.takeDead_fst h.orphaned_dead]
  refine ⟨h.lists.keep fun p => !alive p, ?_, ?_, ?_, ?_⟩
  · exact fun e he => h.keyed e (List.mem_of_mem_filter he)
  · exact h.nodup_keys.sublist (List.filter_sublist.map _)
  · exact fun entry hmem => by cases hmem
  · rw [FinalizerTable.all_takeDead h.orphaned_dead]
    exact h.lists.keep alive

end Tracks

inductive RegistrationEvent (φ : Type) where
  | allocate (address : Nat) (className : String) (payload : Option String)
  | die (o : ObjectRef)
  | share (o : ObjectRef)
  | objectId (me : Nat) (o : ObjectRef)
  | identify (me : Nat) (o : ObjectRef) (ids : IdTable)
  | define (me : Nat) (o : ObjectRef) (finalizer : φ)
  | undefine (o : ObjectRef)
  | runPending
  | collect
  | runAll

/-- A space with the objects there have been and the dead ones among them, and what has become of
the registrations so far: those still outstanding, oldest first, those removed, and those called. -/
structure RegistrationRun (φ : Type) where
  heap : Heap := {}
  space : ObjectSpace φ := {}
  objects : List ObjectRef := []
  dead : List ObjectRef := []
  count : Nat := 0
  outstanding : List (Registration φ) := []
  removed : List (Registration φ) := []
  called : List (Registration φ) := []

namespace RegistrationRun

def isAlive (run : RegistrationRun φ) (o : ObjectRef) : Bool :=
  o ∈ run.objects && o ∉ run.dead

/-- The registrations that an event should take, to be called. -/
def due (run : RegistrationRun φ) : RegistrationEvent φ → List (Registration φ)
  | .runPending | .collect => run.outstanding.filter fun r => !run.isAlive r.object
  | .runAll => run.outstanding
  | _ => []

def calls (run : RegistrationRun φ) : RegistrationEvent φ → List (Nat × φ)
  | .runPending | .collect => FinalizerTable.calls (run.space.finalizers.takeDead run.isAlive).1
  | .runAll => FinalizerTable.calls run.space.finalizers.takeAll.1
  | _ => []

def define (me : Nat) (o : ObjectRef) (finalizer : φ) (run : RegistrationRun φ) :
    RegistrationRun φ :=
  let (id?, heap, ids) := objectId? me o run.heap run.space.ids
  match id? with
  | some id =>
    { run with
      heap
      space := { run.space with
        ids, finalizers := run.space.finalizers.define run.isAlive o id finalizer }
      count := run.count + 1
      outstanding := run.outstanding ++ [⟨run.count, o, id, finalizer⟩] }
  | none => { run with heap, space := { run.space with ids } }

def takeDead (run : RegistrationRun φ) : RegistrationRun φ :=
  { run with
    space := { run.space with finalizers := (run.space.finalizers.takeDead run.isAlive).2 }
    outstanding := run.outstanding.filter fun r => run.isAlive r.object
    called := run.called ++ run.due .runPending }

/-- Events about objects that no caller can have do not occur. -/
def step (run : RegistrationRun φ) : RegistrationEvent φ → RegistrationRun φ
  | .allocate address className payload =>
    if run.objects.any fun o => run.isAlive o && o.address == address then run
    else
      { run with
        heap := { run.heap with nextSerial := run.heap.nextSerial + 1 }
        objects := ⟨run.heap.nextSerial, address, className, payload⟩ :: run.objects }
  | .die o => if run.isAlive o then { run with dead := o :: run.dead } else run
  | .share o => if run.isAlive o then { run with heap := run.heap.share o } else run
  | .objectId me o =>
    if run.isAlive o then
      let (_, heap, ids) := objectId? me o run.heap run.space.ids
      { run with heap, space := { run.space with ids } }
    else run
  | .identify me o ids =>
    if run.isAlive o then { run with heap := (objectId? me o run.heap ids).2.1 } else run
  | .define me o finalizer => if run.isAlive o then run.define me o finalizer else run
  | .undefine o =>
    if run.isAlive o then
      { run with
        space := { run.space with
          finalizers := (run.space.finalizers.undefine run.isAlive o).2 }
        outstanding := run.outstanding.filter fun r => r.object ≠ o
        removed := run.removed ++ registeredOn o run.outstanding }
    else run
  | .runPending => run.takeDead
  | .collect => { run with space := run.space.sweep run.isAlive }.takeDead
  | .runAll =>
    { run with
      space := { run.space with finalizers := run.space.finalizers.takeAll.2 }
      outstanding := []
      called := run.called ++ run.outstanding }

def along (run : RegistrationRun φ) (events : List (RegistrationEvent φ)) : RegistrationRun φ :=
  events.foldl step run

def registrations (run : RegistrationRun φ) : List (Registration φ) :=
  run.outstanding ++ run.removed ++ run.called

/-- The table holds what is outstanding, and no registration is lost or counted twice. Live objects
have addresses of their own. -/
structure Sound (run : RegistrationRun φ) : Prop where
  serial_lt : ∀ o ∈ run.objects, o.serial < run.heap.nextSerial
  serial_inj : ∀ o ∈ run.objects, ∀ p ∈ run.objects, o.serial = p.serial → o = p
  dead_mem : ∀ o ∈ run.dead, o ∈ run.objects
  address_inj : ∀ o p, run.isAlive o → run.isAlive p → o.address = p.address → o = p
  unlocked : ∀ o, (run.heap.state o).lockedBy = none
  tracks : Tracks run.isAlive run.heap.readId run.space.finalizers run.outstanding
  numbered : (run.registrations.map (·.number)).Perm (List.range run.count)
  ordered : run.outstanding.Pairwise fun r s => r.number < s.number
  genuine : ∀ r ∈ run.registrations,
    r.object ∈ run.objects ∧ r.id = run.heap.readId r.object ∧ r.id ≠ 0

variable {run : RegistrationRun φ} {o : ObjectRef}

theorem called_step (event : RegistrationEvent φ) :
    (run.step event).called = run.called ++ run.due event := by
  cases event with
  | runPending | collect | runAll => rfl
  | define me o finalizer =>
      simp only [step, RegistrationRun.define, due, List.append_nil]
      split
      · split <;> rfl
      · rfl
  | _ =>
      simp only [step, due, List.append_nil]
      split <;> rfl

theorem isAlive_iff : run.isAlive o ↔ o ∈ run.objects ∧ o ∉ run.dead := by
  simp [isAlive]

theorem held?_object {heap : Heap} {ids : IdTable} {id : Nat} :
    ids.held? heap (.object o) = some id ↔ heap.readId o = id ∧ id ≠ 0 := by
  simp only [IdTable.held?]
  split
  · next hzero => simp [hzero, eq_comm]
  · next hne =>
    rw [Option.some.injEq]
    exact ⟨fun heq => ⟨heq, heq ▸ hne⟩, fun heq => heq.1⟩

/-- A request for an id keeps the ids that were given, and its answer is the id that the object has
from then on. -/
theorem readId_of_requested {heap heap' : Heap} {ids ids' : IdTable} {id? : Option Nat}
    (h : Requested (.object o) heap ids id? heap' ids') :
    heap'.nextSerial = heap.nextSerial ∧
      (∀ p, (heap'.state p).lockedBy = (heap.state p).lockedBy) ∧
      (∀ p, heap.readId p ≠ 0 → heap'.readId p = heap.readId p) ∧
      ∀ id, id? = some id → heap'.readId o = id ∧ id ≠ 0 := by
  refine ⟨h.nextSerial_eq, h.lockedBy_eq, fun p hne => ?_, fun id heq => ?_⟩
  · have hheld : ids.held? heap (.object p) = some (heap.readId p) := held?_object.mpr ⟨rfl, hne⟩
    exact (held?_object.mp (h.held?_of_held hheld)).1
  · exact held?_object.mp (h.held?_answer heq)

namespace Sound

theorem start (ids : IdTable) : Sound ({ space := { ids } } : RegistrationRun φ) where
  serial_lt := by simp
  serial_inj := by simp
  dead_mem := by simp
  address_inj := by simp [isAlive]
  unlocked := fun _ => rfl
  tracks := .start _ _
  numbered := .refl _
  ordered := .nil
  genuine := by simp [registrations]

theorem mem_objects (h : Sound run) {entry : FinalizerEntry φ}
    (hmem : entry ∈ run.space.finalizers.all) : entry.object ∈ run.objects := by
  obtain ⟨r, hr, heq⟩ := h.tracks.lists.inhabited entry hmem
  have hlisted : r ∈ run.registrations := by simp [registrations, hr]
  exact heq ▸ (h.genuine r hlisted).1

theorem allocate (h : Sound run) (address : Nat) (className : String) (payload : Option String) :
    Sound (run.step (.allocate address className payload)) := by
  simp only [step]
  split
  · exact h
  · next hfree =>
    have halive : ∀ p ∈ run.objects, RegistrationRun.isAlive { run with
        heap := { run.heap with nextSerial := run.heap.nextSerial + 1 }
        objects := ⟨run.heap.nextSerial, address, className, payload⟩ :: run.objects } p =
        run.isAlive p := by
      intro p hp
      simp [isAlive, hp]
    have hapart : ∀ p ∈ run.objects, run.isAlive p → p.address ≠ address := by
      intro p hp hlive heq
      exact hfree (List.any_eq_true.mpr ⟨p, hp, by simp [hlive, heq]⟩)
    refine ⟨?_, ?_, ?_, ?_, h.unlocked, ?_, h.numbered, h.ordered, ?_⟩
    · intro p hp
      rcases List.mem_cons.mp hp with rfl | hp
      · exact Nat.lt_succ_self _
      · exact Nat.lt_succ_of_lt (h.serial_lt p hp)
    · intro p hp q hq heq
      rcases List.mem_cons.mp hp with rfl | hp <;> rcases List.mem_cons.mp hq with rfl | hq
      · rfl
      · exact absurd heq.symm (Nat.ne_of_lt (h.serial_lt q hq))
      · exact absurd heq (Nat.ne_of_lt (h.serial_lt p hp))
      · exact h.serial_inj p hp q hq heq
    · exact fun p hp => List.mem_cons_of_mem _ (h.dead_mem p hp)
    · intro p q hp hq heq
      rcases List.mem_cons.mp (isAlive_iff.mp hp).1 with rfl | hpold <;>
        rcases List.mem_cons.mp (isAlive_iff.mp hq).1 with rfl | hqold
      · rfl
      · exact absurd heq.symm (hapart q hqold (halive q hqold ▸ hq))
      · exact absurd heq (hapart p hpold (halive p hpold ▸ hp))
      · exact h.address_inj p q (halive p hpold ▸ hp) (halive q hqold ▸ hq) heq
    · exact h.tracks.age fun entry hmem hdead => (halive _ (h.mem_objects hmem)).trans hdead
    · intro r hr
      obtain ⟨hobject, hid⟩ := h.genuine r hr
      exact ⟨List.mem_cons_of_mem _ hobject, hid⟩

theorem die (h : Sound run) (o : ObjectRef) : Sound (run.step (.die o)) := by
  simp only [step]
  split
  · next ho =>
    have hdead : ∀ p, RegistrationRun.isAlive { run with dead := o :: run.dead } p →
        run.isAlive p := by
      intro p hp
      simp only [isAlive_iff, List.mem_cons, not_or] at hp ⊢
      exact ⟨hp.1, hp.2.2⟩
    refine ⟨h.serial_lt, h.serial_inj, ?_,
      fun p q hp hq => h.address_inj p q (hdead p hp) (hdead q hq), h.unlocked, ?_, h.numbered,
      h.ordered, h.genuine⟩
    · intro p hp
      rcases List.mem_cons.mp hp with rfl | hp
      · exact (isAlive_iff.mp ho).1
      · exact h.dead_mem p hp
    · refine h.tracks.age fun entry _ hentry => ?_
      rw [Bool.eq_false_iff] at hentry ⊢
      exact fun halive => hentry (hdead _ halive)
  · exact h

theorem share (h : Sound run) (o : ObjectRef) : Sound (run.step (.share o)) := by
  simp only [RegistrationRun.step]
  split
  · refine ⟨h.serial_lt, h.serial_inj, h.dead_mem, h.address_inj, fun p => ?_,
      h.tracks.of_ids fun p _ => run.heap.readId_share o p, h.numbered, h.ordered, fun r hr => ?_⟩
    · exact (run.heap.lockedBy_share o p).trans (h.unlocked p)
    · obtain ⟨hobject, hid, hne⟩ := h.genuine r hr
      exact ⟨hobject, hid.trans (run.heap.readId_share o _).symm, hne⟩
  · exact h

theorem request (h : Sound run) {id? : Option Nat} {heap : Heap} {ids ids' : IdTable}
    (hrequested : Requested (.object o) run.heap ids id? heap ids') (ids'' : IdTable) :
    Sound { run with heap, space := { run.space with ids := ids'' } } ∧
      ∀ id, id? = some id → heap.readId o = id ∧ id ≠ 0 := by
  obtain ⟨hserial, hlocked, hread, hanswer⟩ := readId_of_requested hrequested
  refine ⟨⟨?_, h.serial_inj, h.dead_mem, h.address_inj, fun p => (hlocked p).trans (h.unlocked p),
    h.tracks.of_ids hread, h.numbered, h.ordered, ?_⟩, hanswer⟩
  · exact fun p hp => hserial ▸ h.serial_lt p hp
  · intro r hr
    obtain ⟨hobject, hid, hne⟩ := h.genuine r hr
    exact ⟨hobject, hid.trans (hread _ (hid ▸ hne)).symm, hne⟩

theorem register (h : Sound run) (ho : run.isAlive o) (hne : run.heap.readId o ≠ 0)
    (finalizer : φ) :
    Sound { run with
      space := { run.space with finalizers :=
        run.space.finalizers.define run.isAlive o (run.heap.readId o) finalizer }
      count := run.count + 1
      outstanding := run.outstanding ++ [⟨run.count, o, run.heap.readId o, finalizer⟩] } := by
  obtain ⟨r, hr⟩ : ∃ r : Registration φ, r = ⟨run.count, o, run.heap.readId o, finalizer⟩ :=
    ⟨_, rfl⟩
  have hperm : (run.outstanding ++ [r] ++ run.removed ++ run.called).Perm
      (run.registrations ++ [r]) := by
    simp only [registrations, List.append_assoc]
    refine List.Perm.append_left _ ?_
    simpa using (List.perm_append_singleton r (run.removed ++ run.called)).symm
  rw [← hr]
  refine ⟨h.serial_lt, h.serial_inj, h.dead_mem, h.address_inj, h.unlocked, ?_, ?_, ?_, ?_⟩
  · subst hr
    have hseparate : ∀ p, run.isAlive p → p.address = o.address → p = o :=
      fun p hp => h.address_inj p o hp ho
    exact h.tracks.define (r := ⟨run.count, o, run.heap.readId o, finalizer⟩) ho hseparate rfl hne
  · refine (hperm.map _).trans ?_
    rw [List.map_append, List.range_succ, hr]
    exact h.numbered.append_right _
  · refine List.pairwise_append.mpr ⟨h.ordered, List.pairwise_singleton _ _, fun s hs s' hs' => ?_⟩
    have hnumber : s.number ∈ List.range run.count := by
      refine h.numbered.mem_iff.mp (List.mem_map_of_mem ?_)
      simp [registrations, hs]
    rw [List.mem_singleton.mp hs', hr]
    exact List.mem_range.mp hnumber
  · intro s hs
    rcases List.mem_append.mp (hperm.mem_iff.mp hs) with hs | hs
    · exact h.genuine s hs
    · rw [List.mem_singleton.mp hs, hr]
      exact ⟨(isAlive_iff.mp ho).1, rfl, hne⟩

theorem define (h : Sound run) (me : Nat) (ho : run.isAlive o) (finalizer : φ) :
    Sound (run.define me o finalizer) := by
  have hrequested : Requested (.object o) run.heap run.space.ids _ _ _ :=
    objectId?_requested me (h.unlocked o)
  obtain ⟨id?, heap, ids, hobjectId⟩ : ∃ id? heap ids,
      objectId? me o run.heap run.space.ids = (id?, heap, ids) := ⟨_, _, _, rfl⟩
  simp only [hobjectId] at hrequested
  simp only [RegistrationRun.define, hobjectId]
  obtain ⟨hsound, hanswer⟩ := h.request hrequested ids
  cases id? with
  | none => exact hsound
  | some id =>
      obtain ⟨hid, hne⟩ := hanswer id rfl
      subst hid
      exact hsound.register ho hne finalizer

theorem of_perm (h : Sound run) {finalizers : FinalizerTable φ}
    {outstanding removed called : List (Registration φ)}
    (htracks : Tracks run.isAlive run.heap.readId finalizers outstanding)
    (hperm : (outstanding ++ removed ++ called).Perm run.registrations)
    (hkept : outstanding.Sublist run.outstanding) :
    Sound { run with space := { run.space with finalizers }, outstanding, removed, called } where
  serial_lt := h.serial_lt
  serial_inj := h.serial_inj
  dead_mem := h.dead_mem
  address_inj := h.address_inj
  unlocked := h.unlocked
  tracks := htracks
  numbered := (hperm.map _).trans h.numbered
  ordered := h.ordered.sublist hkept
  genuine := fun r hr => h.genuine r (hperm.mem_iff.mp hr)

theorem undefine (h : Sound run) (ho : run.isAlive o) :
    (run.space.finalizers.undefine run.isAlive o).1 = (registeredOn o run.outstanding).length ∧
      Sound (run.step (.undefine o)) := by
  obtain ⟨hcount, htracks⟩ := h.tracks.undefine ho fun p hp => h.address_inj p o hp ho
  refine ⟨hcount, ?_⟩
  simp only [step, if_pos ho]
  refine h.of_perm htracks ?_ List.filter_sublist
  have hsplit := List.filter_append_perm (fun r : Registration φ => r.object = o) run.outstanding
  classical
  rw [List.perm_iff_count]
  intro r
  have hcount := hsplit.count_eq r
  simp only [registrations, registeredOn, List.count_append, ne_eq, decide_not] at hcount ⊢
  omega

theorem takeDead (h : Sound run) : Sound run.takeDead := by
  refine h.of_perm h.tracks.takeDead.2 ?_ List.filter_sublist
  have hsplit := List.filter_append_perm (fun r => run.isAlive r.object) run.outstanding
  classical
  rw [List.perm_iff_count]
  intro r
  have hcount := hsplit.count_eq r
  simp only [registrations, due, List.count_append] at hcount ⊢
  omega

theorem runAll (h : Sound run) : Sound (run.step .runAll) := by
  refine h.of_perm (.start _ _) ?_ (List.nil_sublist _)
  rw [registrations, List.nil_append, List.append_assoc, ← List.append_assoc]
  exact List.perm_append_comm

theorem step (h : Sound run) (event : RegistrationEvent φ) : Sound (run.step event) := by
  cases event with
  | allocate address className payload => exact h.allocate address className payload
  | die o => exact h.die o
  | share o => exact h.share o
  | objectId me o =>
      simp only [RegistrationRun.step]
      split
      · exact (h.request (objectId?_requested me (h.unlocked o)) _).1
      · exact h
  | identify me o ids =>
      simp only [RegistrationRun.step]
      split
      · exact (h.request (objectId?_requested me (h.unlocked o)) _).1
      · exact h
  | define me o finalizer =>
      simp only [RegistrationRun.step]
      split
      · next ho => exact h.define me ho finalizer
      · exact h
  | undefine o =>
      by_cases ho : run.isAlive o
      · exact (h.undefine ho).2
      · simpa [RegistrationRun.step, ho] using h
  | runPending => exact h.takeDead
  | collect =>
      have hswept : Sound { run with space := run.space.sweep run.isAlive } :=
        ⟨h.serial_lt, h.serial_inj, h.dead_mem, h.address_inj, h.unlocked, h.tracks, h.numbered,
          h.ordered, h.genuine⟩
      exact hswept.takeDead
  | runAll => exact h.runAll

theorem along (h : Sound run) (events : List (RegistrationEvent φ)) : Sound (run.along events) := by
  induction events generalizing run with
  | nil => exact h
  | cons event rest ih => exact ih (h.step event)

/-- What an event takes from the table comes to the calls of the registrations that it should
take. -/
theorem inTurn_calls (h : Sound run) (event : RegistrationEvent φ) :
    InTurn (run.calls event) (run.due event) := by
  cases event with
  | runPending | collect => exact h.tracks.takeDead.1.inTurn_calls
  | runAll => exact h.tracks.lists.inTurn_calls
  | _ => exact ⟨[], .refl _, fun _ => rfl, rfl⟩

theorem ordered_due (h : Sound run) (event : RegistrationEvent φ) :
    (run.due event).Pairwise fun r s => r.number < s.number := by
  cases event with
  | runPending | collect => exact h.ordered.sublist List.filter_sublist
  | runAll => exact h.ordered
  | _ => exact .nil

theorem dead_of_due (h : Sound run) {event : RegistrationEvent φ} {r : Registration φ}
    (hr : r ∈ run.due event) (hevent : event ≠ .runAll) : r.object ∈ run.dead := by
  have hdead : ∀ s ∈ run.outstanding.filter (fun r => !run.isAlive r.object),
      s.object ∈ run.dead := by
    intro s hs
    obtain ⟨hs, hdead⟩ := List.mem_filter.mp hs
    have hlisted : s ∈ run.registrations := by simp [registrations, hs]
    simpa [isAlive, (h.genuine s hlisted).1] using hdead
  cases event with
  | runPending | collect => exact hdead r hr
  | runAll => exact absurd rfl hevent
  | _ => cases hr

end Sound

end RegistrationRun

end RubyRuntime
