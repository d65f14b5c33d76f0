import Mathlib.Data.Set.Function
import RubyRuntime.Proofs.Weak.Readback
import RubyRuntime.Proofs.Weak.Sweeps
import RubyRuntime.Session.WeakOps

/-!
# Weak key maps as association lists

A weak key map is compared with a plain list of pairs that never forgets anything on its own: a
write replaces the pair of an equal key, a removal drops it, and a pair whose key is dead is not
shown. The table of the map is keyed by class and payload or by an address, which a new object may
have taken over from a dead key. Main result: whatever is written and removed while objects die,
the map shows for every key what the list shows for it.
-/
namespace RubyRuntime.WeakKeyMap

section Pairs

def isFor (k : ObjectRef) (pair : ObjectRef × Value) : Bool :=
  (Value.object pair.1).eql (.object k)

def live? (alive : ObjectRef → Bool) (k : ObjectRef) (pairs : List (ObjectRef × Value)) :
    Option (ObjectRef × Value) :=
  (pairs.find? (isFor k)).filter fun pair => alive pair.1

def erase (k : ObjectRef) (pairs : List (ObjectRef × Value)) : List (ObjectRef × Value) :=
  pairs.filter fun pair => !isFor k pair

/-- The key under which a value is written for `k`: that of the pair of `k` as long as it is alive,
and otherwise `k` itself. -/
def storedKey (alive : ObjectRef → Bool) (k : ObjectRef) (pairs : List (ObjectRef × Value)) :
    ObjectRef :=
  ((live? alive k pairs).map Prod.fst).getD k

def put (alive : ObjectRef → Bool) (k : ObjectRef) (v : Value)
    (pairs : List (ObjectRef × Value)) : List (ObjectRef × Value) :=
  (storedKey alive k pairs, v) :: erase k pairs

end Pairs

/-- No two of the objects that are alive have one address. -/
def Apart (objects : Set ObjectRef) (alive : ObjectRef → Bool) : Prop :=
  Set.InjOn ObjectRef.address {o | o ∈ objects ∧ alive o}

/-- What the program holds, what a list of pairs remembers, and the map, after a run that began with
an empty map. `objects` are all the objects there ever are. Arguments of a call are held by the
caller, and so is what it gets. The table may be in any order. -/
inductive History (objects : Set ObjectRef) :
    (ObjectRef → Bool) → List (ObjectRef × Value) → WeakKeyMap → Prop where
  | start {held : ObjectRef → Bool} (hapart : Apart objects held) : History objects held [] clear
  | age {held held' : ObjectRef → Bool} {pairs : List (ObjectRef × Value)} {map : WeakKeyMap}
    (h : History objects held pairs map) (hapart : Apart objects (isAlive held' map.entries))
    (hdead : ∀ pair ∈ pairs, held' pair.1 → isAlive held map.entries pair.1) :
    History objects held' pairs map
  | set {held : ObjectRef → Bool} {pairs : List (ObjectRef × Value)} {map map' : WeakKeyMap}
    {o : ObjectRef} {v : Value} (h : History objects held pairs map) (ho : o ∈ objects)
    (hkey : held o) (hvalue : ∀ p, v.refersTo p → held p)
    (hset : map.set held (.object o) v = .ok map') :
    History objects held (put (isAlive held (map.sweep held).entries) o v pairs) map'
  | delete {held : ObjectRef → Bool} {pairs : List (ObjectRef × Value)} {map : WeakKeyMap}
    {o : ObjectRef} {v : Value} (h : History objects held pairs map) (ho : o ∈ objects)
    (hkey : held o) (hfound : (map.delete held (.object o)).1 = some v) :
    History objects (holding held v) (erase o pairs) (map.delete held (.object o)).2
  | miss {held : ObjectRef → Bool} {pairs : List (ObjectRef × Value)} {map : WeakKeyMap}
    {o : ObjectRef} (h : History objects held pairs map) (ho : o ∈ objects) (hkey : held o)
    (hmissed : (map.delete held (.object o)).1 = none) :
    History objects held pairs (map.delete held (.object o)).2
  | clear {held : ObjectRef → Bool} {pairs : List (ObjectRef × Value)} {map : WeakKeyMap}
    (h : History objects held pairs map) : History objects held [] clear
  | sweep {held : ObjectRef → Bool} {pairs : List (ObjectRef × Value)} {map : WeakKeyMap}
    (h : History objects held pairs map) : History objects held pairs (map.sweep held)
  | rearrange {held : ObjectRef → Bool} {pairs : List (ObjectRef × Value)} {map : WeakKeyMap}
    {entries : List (EqlKey × KeyEntry)} (h : History objects held pairs map)
    (hperm : map.entries.Perm entries) : History objects held pairs ⟨entries⟩

section Equality

variable {objects : Set ObjectRef} {alive : ObjectRef → Bool} {o p q : ObjectRef}

theorem eql_iff (hserial : objects.InjOn ObjectRef.serial) (ho : o ∈ objects) (hp : p ∈ objects) :
    (Value.object o).eql (.object p) ↔
      o = p ∨ o.payload.isSome ∧ o.payload = p.payload ∧ o.className = p.className := by
  have hsame : o.serial = p.serial ↔ o = p := ⟨hserial ho hp, congrArg _⟩
  simp only [Value.eql]
  split
  · next payload payload' hpayload hpayload' =>
    simp only [Bool.and_eq_true, beq_iff_eq, hpayload, hpayload', Option.isSome_some, true_and,
      Option.some.injEq]
    constructor
    · rintro ⟨hclass, heq⟩
      exact .inr ⟨heq, hclass⟩
    · rintro (rfl | ⟨heq, hclass⟩)
      · exact ⟨rfl, Option.some.inj (hpayload.symm.trans hpayload')⟩
      · exact ⟨hclass, heq⟩
  · next hnone =>
    rw [beq_iff_eq, hsame]
    refine ⟨.inl, ?_⟩
    rintro (heq | ⟨hsome, heq, -⟩)
    · exact heq
    · obtain ⟨payload, hpayload⟩ := Option.isSome_iff_exists.mp hsome
      exact absurd (heq ▸ hpayload) (hnone payload payload hpayload)

theorem eql_trans (hserial : objects.InjOn ObjectRef.serial) (ho : o ∈ objects) (hp : p ∈ objects)
    (hq : q ∈ objects) (hop : (Value.object o).eql (.object p))
    (hpq : (Value.object p).eql (.object q)) : (Value.object o).eql (.object q) := by
  rw [ eql_iff hserial ho hp] at hop
  rw [ eql_iff hserial hp hq] at hpq
  rw [ eql_iff hserial ho hq]
  rcases hop with rfl | ⟨hsome, hpayload, hclass⟩
  · exact hpq
  · rcases hpq with rfl | ⟨-, hpayload', hclass'⟩
    · exact .inr ⟨hsome, hpayload, hclass⟩
    · exact .inr ⟨hsome, hpayload.trans hpayload', hclass.trans hclass'⟩

theorem eql_symm (hserial : objects.InjOn ObjectRef.serial) (ho : o ∈ objects) (hp : p ∈ objects)
    (h : (Value.object o).eql (.object p)) : (Value.object p).eql (.object o) := by
  rw [ eql_iff hserial ho hp] at h
  rw [ eql_iff hserial hp ho]
  rcases h with rfl | ⟨hsome, hpayload, hclass⟩
  · exact .inl rfl
  · exact .inr ⟨hpayload ▸ hsome, hpayload.symm, hclass.symm⟩

theorem eqlKey_eq_of_eql (hserial : objects.InjOn ObjectRef.serial) (ho : o ∈ objects)
    (hp : p ∈ objects) (h : (Value.object o).eql (.object p)) : o.eqlKey = p.eqlKey := by
  rcases (eql_iff hserial ho hp).mp h with rfl | ⟨hsome, hpayload, hclass⟩
  · rfl
  · obtain ⟨payload, heq⟩ := Option.isSome_iff_exists.mp hsome
    simp [ObjectRef.eqlKey, hclass, ← hpayload, heq]

theorem eqlKey_eq_iff (hserial : objects.InjOn ObjectRef.serial) (hapart : Apart objects alive)
    (ho : o ∈ objects) (hp : p ∈ objects) (haliveo : alive o) (halivep : alive p) :
    o.eqlKey = p.eqlKey ↔ (Value.object o).eql (.object p) := by
  refine ⟨fun hkey => ?_, eqlKey_eq_of_eql hserial ho hp⟩
  rw [ eql_iff hserial ho hp]
  cases hpayload : o.payload <;> cases hpayload' : p.payload <;>
    simp only [ObjectRef.eqlKey, hpayload, hpayload'] at hkey
  case none.none => exact .inl (hapart ⟨ho, haliveo⟩ ⟨hp, halivep⟩ (EqlKey.identity.inj hkey))
  case none.some => cases hkey
  case some.none => cases hkey
  case some.some =>
    obtain ⟨hclass, heq⟩ := EqlKey.payload.inj hkey
    exact .inr ⟨rfl, congrArg some heq, hclass⟩

end Equality

section Lists

variable {alive : ObjectRef → Bool} {o : ObjectRef} {v : Value} {pairs : List (ObjectRef × Value)}
  {pair : ObjectRef × Value}

def Distinct (pairs : List (ObjectRef × Value)) : Prop :=
  ∀ first ∈ pairs, ∀ second ∈ pairs, isFor second.1 first → first = second

theorem mem_erase_iff : pair ∈ erase o pairs ↔ pair ∈ pairs ∧ ¬ isFor o pair := by
  simp [erase]

/-- The shown pair of a key is the one with an equal key, and its key is alive. -/
theorem live?_eq_some_iff {objects : Set ObjectRef} (hserial : objects.InjOn ObjectRef.serial)
    (hgenuine : ∀ pair ∈ pairs, pair.1 ∈ objects) (hdistinct : Distinct pairs) (ho : o ∈ objects) :
    live? alive o pairs = some pair ↔ pair ∈ pairs ∧ isFor o pair ∧ alive pair.1 := by
  have hfind : pairs.find? (isFor o) = some pair ↔ pair ∈ pairs ∧ isFor o pair := by
    constructor
    · intro hfound
      exact ⟨List.mem_of_find?_eq_some hfound, List.find?_some hfound⟩
    · rintro ⟨hmem, hfor⟩
      obtain ⟨first, hfirst⟩ := Option.isSome_iff_exists.mp
        (List.find?_isSome.mpr ⟨pair, hmem, hfor⟩)
      have hmemFirst := List.mem_of_find?_eq_some hfirst
      have hforFirst := List.find?_some hfirst
      have hboth : isFor pair.1 first :=
        eql_trans hserial (hgenuine first hmemFirst) ho (hgenuine pair hmem) hforFirst
          (eql_symm hserial (hgenuine pair hmem) ho hfor)
      rw [hfirst, hdistinct first hmemFirst pair hmem hboth]
  rw [live?, Option.filter_eq_some_iff, hfind, and_assoc]

theorem distinct_cons_erase {objects : Set ObjectRef} (hserial : objects.InjOn ObjectRef.serial)
    (hgenuine : ∀ pair ∈ pairs, pair.1 ∈ objects) (hdistinct : Distinct pairs) (ho : o ∈ objects)
    (hpair : pair.1 ∈ objects) (hfor : isFor o pair) : Distinct (pair :: erase o pairs) := by
  have hmember : ∀ {other}, other ∈ erase o pairs → other.1 ∈ objects :=
    fun hother => hgenuine _ (mem_erase_iff.mp hother).1
  intro first hfirst second hsecond hboth
  rcases List.mem_cons.mp hfirst with rfl | hold <;>
    rcases List.mem_cons.mp hsecond with rfl | hold'
  · rfl
  · have hown := eql_symm hserial hpair (hmember hold') hboth
    exact absurd (eql_trans hserial (hmember hold') hpair ho hown hfor) (mem_erase_iff.mp hold').2
  · exact absurd (eql_trans hserial (hmember hold) hpair ho hboth hfor) (mem_erase_iff.mp hold).2
  · exact hdistinct first (mem_erase_iff.mp hold).1 second (mem_erase_iff.mp hold').1 hboth

end Lists

/-- A map that agrees with a list of pairs. What its table still holds for dead keys is also in the
list. -/
structure Agrees (objects : Set ObjectRef) (held : ObjectRef → Bool)
    (pairs : List (ObjectRef × Value)) (map : WeakKeyMap) : Prop where
  apart : Apart objects (isAlive held map.entries)
  genuine : ∀ pair ∈ pairs, pair.1 ∈ objects
  distinct : Distinct pairs
  nodup : (map.entries.map Prod.fst).Nodup
  keyed : ∀ entry ∈ map.entries, entry.1 = entry.2.key.eqlKey
  written : ∀ entry ∈ map.entries, (entry.2.key, entry.2.value) ∈ pairs
  kept : ∀ pair ∈ pairs, isAlive held map.entries pair.1 →
    (pair.1.eqlKey, ⟨pair.1, pair.2⟩) ∈ map.entries

section Tables

variable {held : ObjectRef → Bool} {map : WeakKeyMap} {o : ObjectRef}

theorem entry?_eq_some_iff (h : (map.entries.map Prod.fst).Nodup) {entry : KeyEntry} :
    map.entry? held o = some entry ↔
      (o.eqlKey, entry) ∈ map.entries ∧ isAlive held map.entries entry.key ∧
        (Value.object entry.key).eql (.object o) := by
  refine ⟨entry?_eq_some, ?_⟩
  rintro ⟨hmem, halive, heql⟩
  rw [ entry?, (lookup_eq_some_iff_mem h).mpr hmem, Option.filter_some, halive, heql]
  rfl

theorem mem_sweep {entry : EqlKey × KeyEntry} (hmem : entry ∈ map.entries)
    (halive : isAlive held (map.sweep held).entries entry.2.key) :
    entry ∈ (map.sweep held).entries := by
  have hcount : (map.sweep held).entries.countP (· == entry) = map.entries.countP (· == entry) := by
    apply countP_sweepFrom [] map.entries
    intro other hother
    rw [beq_iff_eq] at hother
    exact hother ▸ halive
  have hpos : 0 < (map.sweep held).entries.countP (· == entry) := by
    rw [hcount]
    exact List.countP_pos_iff.mpr ⟨entry, hmem, beq_self_eq_true entry⟩
  obtain ⟨other, hother, heq⟩ := List.countP_pos_iff.mp hpos
  exact beq_iff_eq.mp heq ▸ hother

end Tables

namespace Agrees

variable {objects : Set ObjectRef} {held held' : ObjectRef → Bool}
  {pairs : List (ObjectRef × Value)} {map : WeakKeyMap} {o : ObjectRef} {v : Value}

theorem start (h : Apart objects held) : Agrees objects held [] clear where
  apart := by
    have halive : isAlive held clear.entries = held := funext fun o => by simp [isAlive, clear]
    rwa [halive]
  genuine := fun _ hmem => by cases hmem
  distinct := fun _ hmem => by cases hmem
  nodup := List.nodup_nil
  keyed := fun _ hmem => by cases hmem
  written := fun _ hmem => by cases hmem
  kept := fun _ hmem => by cases hmem

theorem apart_of_subset (h : Agrees objects held pairs map)
    {alive : ObjectRef → Bool} (hsubset : ∀ p, alive p → isAlive held map.entries p) :
    Apart objects alive := by
  have hlive : {p | p ∈ objects ∧ alive p} ⊆ {p | p ∈ objects ∧ isAlive held map.entries p} :=
    fun p hp => ⟨hp.1, hsubset p hp.2⟩
  exact Set.InjOn.mono hlive h.apart

theorem age (h : Agrees objects held pairs map)
    (hapart : Apart objects (isAlive held' map.entries))
    (hdead : ∀ pair ∈ pairs, held' pair.1 → isAlive held map.entries pair.1) :
    Agrees objects held' pairs map where
  apart := hapart
  genuine := h.genuine
  distinct := h.distinct
  nodup := h.nodup
  keyed := h.keyed
  written := h.written
  kept := fun pair hmem halive => by
    apply h.kept pair hmem
    rcases isAlive_iff.mp halive with hheld | hholder
    · exact hdead pair hmem hheld
    · exact isAlive_iff.mpr (.inr hholder)

theorem sweep (h : Agrees objects held pairs map) :
    Agrees objects held pairs (map.sweep held) := by
  have hsubset := (sublist_sweep held map).subset
  have hmono : ∀ p, isAlive held (map.sweep held).entries p → isAlive held map.entries p :=
    fun p => isAlive_mono fun entry hmem => hsubset hmem
  exact
    { apart := h.apart_of_subset hmono
      genuine := h.genuine
      distinct := h.distinct
      nodup := h.nodup.sublist ((sublist_sweep held map).map _)
      keyed := fun entry hmem => h.keyed entry (hsubset hmem)
      written := fun entry hmem => h.written entry (hsubset hmem)
      kept := fun pair hmem halive => mem_sweep (h.kept pair hmem (hmono _ halive)) halive }

theorem rearrange (h : Agrees objects held pairs map) {entries : List (EqlKey × KeyEntry)}
    (hperm : map.entries.Perm entries) : Agrees objects held pairs ⟨entries⟩ := by
  have hmono : ∀ p, isAlive held entries p → isAlive held map.entries p :=
    fun p => isAlive_mono fun entry hmem => hperm.mem_iff.mpr hmem
  exact
    { apart := h.apart_of_subset hmono
      genuine := h.genuine
      distinct := h.distinct
      nodup := (hperm.map _).nodup h.nodup
      keyed := fun entry hmem => h.keyed entry (hperm.mem_iff.mpr hmem)
      written := fun entry hmem => h.written entry (hperm.mem_iff.mpr hmem)
      kept := fun pair hmem halive => hperm.mem_iff.mp (h.kept pair hmem (hmono _ halive)) }

theorem entry?_eq (hserial : objects.InjOn ObjectRef.serial) (h : Agrees objects held pairs map)
    (ho : o ∈ objects) :
    map.entry? held o =
      (live? (isAlive held map.entries) o pairs).map fun pair => KeyEntry.mk pair.1 pair.2 := by
  have hlive : ∀ pair, live? (isAlive held map.entries) o pairs = some pair ↔
      pair ∈ pairs ∧ isFor o pair ∧ isAlive held map.entries pair.1 :=
    fun pair => live?_eq_some_iff hserial h.genuine h.distinct ho
  ext entry
  rw [ entry?_eq_some_iff h.nodup, Option.map_eq_some_iff]
  constructor
  · rintro ⟨hmem, halive, heql⟩
    exact ⟨(entry.key, entry.value), (hlive _).mpr ⟨h.written _ hmem, heql, halive⟩, rfl⟩
  · rintro ⟨pair, hpair, rfl⟩
    obtain ⟨hmem, hfor, halive⟩ := (hlive pair).mp hpair
    have hkey := eqlKey_eq_of_eql hserial (h.genuine pair hmem) ho hfor
    exact ⟨hkey ▸ h.kept pair hmem halive, halive, hfor⟩

theorem eqlKey_ne (hserial : objects.InjOn ObjectRef.serial) (h : Agrees objects held pairs map)
    (ho : o ∈ objects) (hkey : held o) {pair : ObjectRef × Value} (hmem : pair ∈ pairs)
    (halive : isAlive held map.entries pair.1) (hother : ¬ isFor o pair) :
    pair.1.eqlKey ≠ o.eqlKey := by
  intro heq
  have hown : isAlive held map.entries o := isAlive_iff.mpr (.inl hkey)
  exact hother ((eqlKey_eq_iff hserial h.apart (h.genuine pair hmem) ho halive hown).mp heq)

/-- The key under which a write for `o` is stored is equal to `o`. -/
theorem storedKey_for (hserial : objects.InjOn ObjectRef.serial) (h : Agrees objects held pairs map)
    (alive : ObjectRef → Bool) (ho : o ∈ objects) :
    storedKey alive o pairs ∈ objects ∧
      (Value.object (storedKey alive o pairs)).eql (.object o) := by
  cases hfound : live? alive o pairs with
  | none => simpa [storedKey, hfound, eql_self] using ho
  | some pair =>
      obtain ⟨hmem, hfor, -⟩ := (live?_eq_some_iff hserial h.genuine h.distinct ho).mp hfound
      simpa [storedKey, hfound] using ⟨h.genuine pair hmem, hfor⟩

theorem write (hserial : objects.InjOn ObjectRef.serial) (h : Agrees objects held pairs map)
    (ho : o ∈ objects) (hkey : held o) (hvalue : ∀ p, v.refersTo p → held p) {stored : ObjectRef}
    (hstored : stored ∈ objects) (hfor : (Value.object stored).eql (.object o)) :
    Agrees objects held ((stored, v) :: erase o pairs)
      ⟨store o.eqlKey ⟨stored, v⟩ map.entries⟩ := by
  have hstoredKey : stored.eqlKey = o.eqlKey := eqlKey_eq_of_eql hserial hstored ho hfor
  have hmem : ∀ {entry}, entry ∈ store o.eqlKey ⟨stored, v⟩ map.entries ↔
      entry = (o.eqlKey, ⟨stored, v⟩) ∨ entry ∈ map.entries ∧ entry.1 ≠ o.eqlKey :=
    mem_store_iff h.nodup
  have hmono : ∀ p, isAlive held (store o.eqlKey ⟨stored, v⟩ map.entries) p →
      isAlive held map.entries p := by
    intro p hp
    rw [isAlive_iff]
    rcases (isAlive_store_iff h.nodup).mp hp with hheld | hnew | ⟨holder, hholder, -, hrefers⟩
    · exact .inl hheld
    · exact .inl (hvalue p hnew)
    · exact .inr ⟨holder, hholder, hrefers⟩
  refine ⟨h.apart_of_subset hmono, ?_, ?_, nodup_store h.nodup, ?_, ?_, ?_⟩
  · intro pair hpair
    rcases List.mem_cons.mp hpair with rfl | hbefore
    · exact hstored
    · exact h.genuine pair (mem_erase_iff.mp hbefore).1
  · exact distinct_cons_erase hserial h.genuine h.distinct ho hstored hfor
  · intro entry hentry
    rcases hmem.mp hentry with rfl | ⟨hbefore, -⟩
    · exact hstoredKey.symm
    · exact h.keyed entry hbefore
  · intro entry hentry
    rcases hmem.mp hentry with rfl | ⟨hbefore, hother⟩
    · exact List.mem_cons_self
    · have hpair := h.written entry hbefore
      refine List.mem_cons_of_mem _ (mem_erase_iff.mpr ⟨hpair, fun hown => hother ?_⟩)
      rw [h.keyed entry hbefore]
      exact eqlKey_eq_of_eql hserial (h.genuine _ hpair) ho hown
  · intro pair hpair hlive
    rcases List.mem_cons.mp hpair with rfl | hbefore
    · exact hmem.mpr (.inl (by rw [hstoredKey]))
    · obtain ⟨hbefore, hother⟩ := mem_erase_iff.mp hbefore
      have hwasLive := hmono _ hlive
      refine hmem.mpr (.inr ⟨h.kept pair hbefore hwasLive, ?_⟩)
      exact h.eqlKey_ne hserial ho hkey hbefore hwasLive hother

theorem set (hserial : objects.InjOn ObjectRef.serial) (h : Agrees objects held pairs map)
    (ho : o ∈ objects) (hkey : held o) (hvalue : ∀ p, v.refersTo p → held p) {map' : WeakKeyMap}
    (hset : map.set held (.object o) v = .ok map') :
    Agrees objects held (put (isAlive held (map.sweep held).entries) o v pairs) map' := by
  have hswept := h.sweep
  obtain ⟨hstored, hfor⟩ :=
    hswept.storedKey_for hserial (isAlive held (map.sweep held).entries) ho
  have hmap : map' = ⟨store o.eqlKey
      ⟨storedKey (isAlive held (map.sweep held).entries) o pairs, v⟩
      (map.sweep held).entries⟩ := by
    simp only [WeakKeyMap.set, Value.asObject?, hswept.entry?_eq hserial ho, Except.ok.injEq]
      at hset
    rw [← hset, storedKey]
    cases live? (isAlive held (map.sweep held).entries) o pairs <;> rfl
  rw [hmap]
  exact hswept.write hserial ho hkey hvalue hstored hfor

theorem remove (hserial : objects.InjOn ObjectRef.serial) (h : Agrees objects held pairs map)
    (ho : o ∈ objects) (hkey : held o) :
    Agrees objects held (erase o pairs)
      ⟨map.entries.filter fun entry => entry.1 ≠ o.eqlKey⟩ := by
  have hmem : ∀ {entry}, entry ∈ map.entries.filter (fun entry => entry.1 ≠ o.eqlKey) ↔
      entry ∈ map.entries ∧ entry.1 ≠ o.eqlKey := by
    simp
  have hmono : ∀ p, isAlive held (map.entries.filter fun entry => entry.1 ≠ o.eqlKey) p →
      isAlive held map.entries p :=
    fun p => isAlive_mono fun entry hentry => (hmem.mp hentry).1
  refine ⟨h.apart_of_subset hmono, ?_, ?_, h.nodup.sublist (List.filter_sublist.map _), ?_, ?_, ?_⟩
  · exact fun pair hpair => h.genuine pair (mem_erase_iff.mp hpair).1
  · exact fun first hfirst second hsecond =>
      h.distinct first (mem_erase_iff.mp hfirst).1 second (mem_erase_iff.mp hsecond).1
  · exact fun entry hentry => h.keyed entry (hmem.mp hentry).1
  · intro entry hentry
    obtain ⟨hbefore, hother⟩ := hmem.mp hentry
    have hpair := h.written entry hbefore
    refine mem_erase_iff.mpr ⟨hpair, fun hown => hother ?_⟩
    rw [h.keyed entry hbefore]
    exact eqlKey_eq_of_eql hserial (h.genuine _ hpair) ho hown
  · intro pair hpair hlive
    obtain ⟨hbefore, hother⟩ := mem_erase_iff.mp hpair
    have hwasLive := hmono _ hlive
    refine hmem.mpr ⟨h.kept pair hbefore hwasLive, ?_⟩
    exact h.eqlKey_ne hserial ho hkey hbefore hwasLive hother

theorem delete_eq (hserial : objects.InjOn ObjectRef.serial) (h : Agrees objects held pairs map)
    (ho : o ∈ objects) :
    map.delete held (.object o) =
      match live? (isAlive held (map.sweep held).entries) o pairs with
      | some pair =>
        (some pair.2, ⟨(map.sweep held).entries.filter fun entry => entry.1 ≠ o.eqlKey⟩)
      | none => (none, map.sweep held) := by
  simp only [WeakKeyMap.delete, Value.asObject?, h.sweep.entry?_eq hserial ho]
  cases live? (isAlive held (map.sweep held).entries) o pairs <;> rfl

theorem delete (hserial : objects.InjOn ObjectRef.serial) (h : Agrees objects held pairs map)
    (ho : o ∈ objects) (hkey : held o) (hfound : (map.delete held (.object o)).1 = some v) :
    Agrees objects (holding held v) (erase o pairs) (map.delete held (.object o)).2 := by
  have hswept := h.sweep
  rw [h.delete_eq hserial ho] at hfound ⊢
  cases hpair : live? (isAlive held (map.sweep held).entries) o pairs with
  | none =>
      rw [hpair] at hfound
      cases hfound
  | some pair =>
      rw [hpair] at hfound
      obtain ⟨hmem, hfor, halive⟩ :=
        (live?_eq_some_iff hserial h.genuine h.distinct ho).mp hpair
      cases hfound
      -- Whoever the removed value refers to was alive through the entry that held the value.
      have hmono : ∀ p, holding held pair.2 p → isAlive held (map.sweep held).entries p := by
        intro p hp
        rcases Bool.or_eq_true_iff.mp hp with hheld | hrefers
        · exact isAlive_iff.mpr (.inl hheld)
        · exact isAlive_iff.mpr (.inr ⟨_, hswept.kept pair hmem halive, hrefers⟩)
      have hapart : Apart objects (isAlive (holding held pair.2) (map.sweep held).entries) := by
        apply hswept.apart_of_subset
        intro p hp
        rcases isAlive_iff.mp hp with hheld | hholder
        · exact hmono p hheld
        · exact isAlive_iff.mpr (.inr hholder)
      have haged := hswept.age hapart fun other _ => hmono other.1
      exact haged.remove hserial ho (Bool.or_eq_true_iff.mpr (.inl hkey))

theorem miss (hserial : objects.InjOn ObjectRef.serial) (h : Agrees objects held pairs map)
    (ho : o ∈ objects) (hmissed : (map.delete held (.object o)).1 = none) :
    Agrees objects held pairs (map.delete held (.object o)).2 := by
  rw [h.delete_eq hserial ho] at hmissed ⊢
  cases hpair : live? (isAlive held (map.sweep held).entries) o pairs with
  | none => exact h.sweep
  | some pair =>
      rw [hpair] at hmissed
      cases hmissed

end Agrees

variable {objects : Set ObjectRef} {held : ObjectRef → Bool} {pairs : List (ObjectRef × Value)}
  {map : WeakKeyMap}

theorem History.agrees (hserial : objects.InjOn ObjectRef.serial)
    (h : History objects held pairs map) : Agrees objects held pairs map := by
  induction h with
  | start hapart => exact .start hapart
  | age _ hapart hdead ih => exact ih.age hapart hdead
  | set _ ho hkey hvalue hset ih => exact ih.set hserial ho hkey hvalue hset
  | delete _ ho hkey hfound ih => exact ih.delete hserial ho hkey hfound
  | miss _ ho _ hmissed ih => exact ih.miss hserial ho hmissed
  | @clear held pairs map _ ih =>
      exact .start (ih.apart_of_subset fun p hp => isAlive_iff.mpr (.inl hp))
  | sweep _ ih => exact ih.sweep
  | rearrange _ hperm ih => exact ih.rearrange hperm

/-- After any run of operations, while objects die at any point, a map shows for every key the pair
of an association list with an equal key if the key of that pair is alive. Writes and removals
change the list as they change the map: a write keeps the key of a pair whose key is alive when the
table has been swept. Keys that cannot be collected are refused by a write and have no value. -/
theorem weak_keys_agree_with_pairs (hserial : objects.InjOn ObjectRef.serial)
    (h : History objects held pairs map) :
    (∀ o ∈ objects,
      map.get? held (.object o) = (live? (isAlive held map.entries) o pairs).map Prod.snd ∧
      map.getKey? held (.object o) =
        (live? (isAlive held map.entries) o pairs).map (fun pair => .object pair.1) ∧
      map.isKey held (.object o) = (live? (isAlive held map.entries) o pairs).isSome) ∧
    (∀ o ∈ objects, ∀ v : Value, held o → (∀ p, v.refersTo p → held p) →
      ∃ map', map.set held (.object o) v = .ok map' ∧
        History objects held (put (isAlive held (map.sweep held).entries) o v pairs) map') ∧
    (∀ o ∈ objects, held o →
      match live? (isAlive held (map.sweep held).entries) o pairs with
      | some (_, v) => (map.delete held (.object o)).1 = some v ∧
          History objects (holding held v) (erase o pairs) (map.delete held (.object o)).2
      | none => (map.delete held (.object o)).1 = none ∧
          History objects held pairs (map.delete held (.object o)).2) ∧
    History objects held [] clear ∧
    (∀ key : Value, key.asObject? = none →
      (∀ v, map.set held key v =
        .error (.core .argument "WeakKeyMap keys must be garbage collectable")) ∧
      map.get? held key = none ∧ map.getKey? held key = none ∧ map.isKey held key = false ∧
      map.delete held key = (none, map)) ∧
    (∀ (key otherwise : Value) (w : Session.World),
      let removed := (map.delete held key).1
      w.replyDelete key removed (some otherwise) =
        { world := w, result := .ok (w.report (removed.getD otherwise)),
          events := if removed.isSome then [] else [.record [("fallback", w.report key)]] }) := by
  have hagrees := h.agrees hserial
  refine ⟨?lookups, ?set, ?delete, h.clear, ?immediates, ?fallback⟩
  case lookups =>
    intro o ho
    simp only [ get?, getKey?, isKey, lookup?, Value.asObject?, Option.bind_some,
      hagrees.entry?_eq hserial ho, Option.map_map, Option.isSome_map]
    exact ⟨rfl, rfl, trivial⟩
  case set =>
    intro o ho v hkey hvalue
    obtain ⟨stored, hset, -⟩ := set_object held map o v
    exact ⟨_, hset, h.set ho hkey hvalue hset⟩
  case delete =>
    intro o ho hkey
    have hdelete := hagrees.delete_eq hserial ho
    split
    · next key v hlive =>
      rw [hlive] at hdelete
      have hfound : (map.delete held (.object o)).1 = some v := by rw [hdelete]
      exact ⟨hfound, h.delete ho hkey hfound⟩
    · next hlive =>
      rw [hlive] at hdelete
      have hmissed : (map.delete held (.object o)).1 = none := by rw [hdelete]
      exact ⟨hmissed, h.miss ho hkey hmissed⟩
  case immediates =>
    intro key hkey
    simp [WeakKeyMap.set, get?, getKey?, isKey, lookup?, WeakKeyMap.delete, hkey, Cause.error]
  case fallback =>
    intro key otherwise w removed
    cases removed <;> rfl

private def word : ObjectRef := ⟨0, 0, "String", some "x"⟩

private def sameWord : ObjectRef := ⟨1, 1, "String", some "x"⟩

/-- A number was stored for the first text, which has died since. -/
def orphaned : WeakKeyMap :=
  ⟨[(word.eqlKey, ⟨word, .integer 1⟩)]⟩

private theorem history_orphaned :
    History {word, sameWord} (· == sameWord) [(word, .integer 1)] orphaned := by
  have haddress : Set.InjOn ObjectRef.address {word, sameWord} := Set.injOn_pair.mpr (by decide)
  have hapart : ∀ alive, Apart {word, sameWord} alive := fun alive => haddress.mono fun _ h => h.1
  have hset : clear.set (fun _ => true) (.object word) (.integer 1) = .ok orphaned := rfl
  have hstored := (History.start (hapart fun _ => true)).set (.inl rfl) rfl (fun _ _ => rfl) hset
  refine hstored.age (hapart _) fun pair hmem hheld => ?_
  exact isAlive_iff.mpr (.inl rfl)

/-- The equal text finds nothing. Once it is stored itself, it is found with its own value. -/
theorem weak_keys_agree_with_pairs_sameWord :
    orphaned.get? (· == sameWord) (.object sameWord) = none ∧
      ∃ map', orphaned.set (· == sameWord) (.object sameWord) (.integer 2) = .ok map' ∧
        map'.getKey? (· == sameWord) (.object sameWord) = some (.object sameWord) ∧
        map'.get? (· == sameWord) (.object sameWord) = some (.integer 2) := by
  have hserial : Set.InjOn ObjectRef.serial {word, sameWord} := Set.injOn_pair.mpr (by decide)
  have hmem : sameWord ∈ ({word, sameWord} : Set ObjectRef) := .inr rfl
  obtain ⟨hlookup, hset, -⟩ := weak_keys_agree_with_pairs hserial history_orphaned
  refine ⟨(hlookup sameWord hmem).1, ?_⟩
  obtain ⟨map', hmap, hhistory⟩ := hset sameWord hmem (.integer 2) rfl (by simp [Value.refersTo])
  obtain ⟨hget, hgetKey, -⟩ := (weak_keys_agree_with_pairs hserial hhistory).1 sameWord hmem
  refine ⟨map', hmap, hgetKey.trans ?_, hget.trans ?_⟩
  · cases hmap
    rfl
  · cases hmap
    rfl

private def keeper : ObjectRef := ⟨2, 2, "Object", none⟩

private def clinging : WeakKeyMap :=
  ⟨[(word.eqlKey, ⟨word, .integer 1⟩), (keeper.eqlKey, ⟨keeper, .object word⟩)]⟩

private theorem history_clinging :
    History {word, sameWord, keeper} (· == sameWord) [(keeper, .object word), (word, .integer 1)]
      clinging := by
  have haddress : Set.InjOn ObjectRef.address {word, sameWord, keeper} := by
    simp [Set.InjOn, word, sameWord, keeper]
  have hapart : ∀ alive, Apart {word, sameWord, keeper} alive :=
    fun alive => haddress.mono fun _ h => h.1
  have hfirst : clear.set (fun _ => true) (.object word) (.integer 1) = .ok orphaned := rfl
  have hsecond : orphaned.set (fun _ => true) (.object keeper) (.object word) = .ok clinging := rfl
  have hword := (History.start (hapart fun _ => true)).set (.inl rfl) rfl (fun _ _ => rfl) hfirst
  have hboth := hword.set (.inr (.inr rfl)) rfl (fun _ _ => rfl) hsecond
  exact hboth.age (hapart _) fun _ _ _ => isAlive_iff.mpr (.inl rfl)

/-- A key is lost to a write or a removal that finds it alive, if what kept it alive is swept
first. -/
theorem key_lost_to_own_sweep :
    let held : ObjectRef → Bool := (· == sameWord)
    History {word, sameWord, keeper} held [(keeper, .object word), (word, .integer 1)] clinging ∧
      isAlive held clinging.entries word ∧
      clinging.get? held (.object sameWord) = some (.integer 1) ∧
      clinging.getKey? held (.object sameWord) = some (.object word) ∧
      (clinging.delete held (.object sameWord)).1 = none ∧
      (∃ map, clinging.set held (.object sameWord) (.integer 2) = .ok map ∧
        map.getKey? held (.object sameWord) = some (.object sameWord)) :=
  ⟨history_clinging, by decide, by decide, by decide, by decide, _, rfl, by decide⟩

end RubyRuntime.WeakKeyMap
