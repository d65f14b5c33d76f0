import Mathlib.Data.List.Nodup
import RubyRuntime.ObjectSpace.Basic
import RubyRuntime.Proofs.Lookup

/-!
# Histories of allocation tracing

Tracing is started and stopped, allocations are traced and cleared, and the collector sweeps, while
objects die and others come to live, possibly at the address of a dead one. The table keeps a depth,
a generation and one record for each address. Main result: over every run it says of a live object
what the history says, namely that tracing is on while some start is not matched by a stop, and that
the record of the object is the last one that was traced meanwhile and has not been cleared since.
-/
namespace RubyRuntime

variable {φ : Type}

inductive TracingEvent where
  | allocate (address : Nat) (className : String) (payload : Option String)
  | die (o : ObjectRef)
  | start
  | stop
  | clear
  | collect
  | trace (o : ObjectRef) (className method file : Option String) (line : Nat)
  deriving DecidableEq

namespace TracingEvent

inductive Balanced : List TracingEvent → Prop where
  | nil : Balanced []
  | other {event : TracingEvent} {rest : List TracingEvent} (hstart : event ≠ start)
    (hstop : event ≠ stop) (h : Balanced rest) : Balanced (event :: rest)
  | nest {inner rest : List TracingEvent} (hinner : Balanced inner) (hrest : Balanced rest) :
    Balanced (start :: (inner ++ stop :: rest))

def Matched (events : List TracingEvent) : Prop :=
  ∃ inner rest, events = inner ++ stop :: rest ∧ Balanced inner

/-- Some start has no later matching stop. -/
def Outstanding (history : List TracingEvent) : Prop :=
  ∃ before after, history = before ++ start :: after ∧ ¬ Matched after

/-- The record of an object that was traced last while tracing was on and has not been cleared
since. -/
def Recorded (history : List TracingEvent) (o : ObjectRef) (record : AllocationRecord) : Prop :=
  ∃ before after className method file line,
    history = before ++ trace o className method file line :: after ∧
      Outstanding before ∧ clear ∉ after ∧
      (∀ middle rest className' method' file' line',
        after = middle ++ trace o className' method' file' line' :: rest →
          ¬ Outstanding (before ++ trace o className method file line :: middle)) ∧
      record = ⟨className, method, file, line, before.count clear⟩

/-- The depth that events lead to; at depth 0 a stop is ignored. -/
def depthAlong : Nat → List TracingEvent → Nat
  | depth, [] => depth
  | depth, start :: rest => depthAlong (depth + 1) rest
  | depth, stop :: rest => depthAlong (depth - 1) rest
  | depth, _ :: rest => depthAlong depth rest

variable {depth : Nat} {event : TracingEvent} {history rest : List TracingEvent} {o : ObjectRef}
  {record : AllocationRecord}

theorem depthAlong_other (hstart : event ≠ start) (hstop : event ≠ stop) :
    depthAlong depth (event :: rest) = depthAlong depth rest := by
  cases event with
  | start => exact absurd rfl hstart
  | stop => exact absurd rfl hstop
  | _ => rfl

theorem depthAlong_append (depth : Nat) (history rest : List TracingEvent) :
    depthAlong depth (history ++ rest) = depthAlong (depthAlong depth history) rest := by
  induction history generalizing depth with
  | nil => rfl
  | cons event history ih => cases event <;> exact ih _

theorem depthAlong_le (depth : Nat) (history : List TracingEvent) :
    depthAlong depth history ≤ depth + history.length := by
  induction history generalizing depth with
  | nil => exact Nat.le_refl _
  | cons event history ih =>
      have hstart := ih (depth + 1)
      have hstop := ih (depth - 1)
      have hother := ih depth
      cases event <;> simp only [depthAlong, List.length_cons] <;> omega

theorem Balanced.depthAlong_eq (h : Balanced history) (depth : Nat) :
    depthAlong depth history = depth := by
  induction h generalizing depth with
  | nil => rfl
  | other hstart hstop _ ih => rw [depthAlong_other hstart hstop, ih]
  | nest _ _ ihinner ihrest =>
      rw [depthAlong, depthAlong_append, ihinner, depthAlong, Nat.add_sub_cancel, ihrest]

theorem depthAlong_nest {inner : List TracingEvent} (h : Balanced inner) (depth : Nat) :
    depthAlong depth (start :: (inner ++ stop :: rest)) = depthAlong depth rest := by
  rw [depthAlong, depthAlong_append, h.depthAlong_eq, depthAlong, Nat.add_sub_cancel]

theorem matched_cons_stop : Matched (stop :: rest) :=
  ⟨[], rest, rfl, .nil⟩

theorem Matched.cons_other (h : Matched rest) (hstart : event ≠ start) (hstop : event ≠ stop) :
    Matched (event :: rest) := by
  obtain ⟨inner, after, rfl, hinner⟩ := h
  exact ⟨event :: inner, after, rfl, hinner.other hstart hstop⟩

theorem Matched.cons_nest {inner : List TracingEvent} (h : Matched rest) (hinner : Balanced inner) :
    Matched (start :: (inner ++ stop :: rest)) := by
  obtain ⟨between, after, rfl, hbetween⟩ := h
  exact ⟨start :: (inner ++ stop :: between), after, by simp, hinner.nest hbetween⟩

/-- A start that nothing matches keeps the depth above what it was. -/
theorem lt_depthAlong_of_not_matched (h : ¬ Matched history) (depth : Nat) :
    depth < depthAlong (depth + 1) history := by
  induction hlength : history.length using Nat.strongRecOn generalizing history depth with
  | ind length ih =>
      cases history with
      | nil => exact Nat.lt_succ_self depth
      | cons event rest =>
          have hshorter : rest.length < length := by simp [← hlength]
          by_cases hstop : event = stop
          · exact absurd matched_cons_stop (hstop ▸ h)
          by_cases hstart : event = start
          · subst hstart
            by_cases hmatched : Matched rest
            · -- The next start is matched, and the events behind its stop are not.
              obtain ⟨inner, after, rfl, hinner⟩ := hmatched
              rw [depthAlong_nest hinner]
              have hafter : ¬ Matched after := fun hafter => h (hafter.cons_nest hinner)
              refine ih after.length ?_ hafter depth rfl
              exact Nat.lt_of_le_of_lt (by simp; omega) hshorter
            · exact Nat.lt_of_succ_lt (ih rest.length hshorter hmatched (depth + 1) rfl)
          · rw [depthAlong_other hstart hstop]
            exact ih rest.length hshorter (fun hrest => h (hrest.cons_other hstart hstop)) depth rfl

theorem Outstanding.append_left (h : Outstanding rest) (before : List TracingEvent) :
    Outstanding (before ++ rest) := by
  obtain ⟨between, after, rfl, hafter⟩ := h
  exact ⟨before ++ between, after, by simp, hafter⟩

theorem outstanding_of_depthAlong (h : 0 < depthAlong 0 history) : Outstanding history := by
  induction hlength : history.length using Nat.strongRecOn generalizing history with
  | ind length ih =>
      cases history with
      | nil => cases h
      | cons event rest =>
          have hshorter : rest.length < length := by simp [← hlength]
          by_cases hmatched : event = start ∧ ¬ Matched rest
          · exact ⟨[], rest, by rw [hmatched.1]; rfl, hmatched.2⟩
          by_cases hstart : event = start
          · subst hstart
            obtain ⟨inner, after, rfl, hinner⟩ := not_not.mp fun hrest => hmatched ⟨rfl, hrest⟩
            rw [depthAlong_nest hinner] at h
            have hafter := ih after.length (Nat.lt_of_le_of_lt (by simp; omega) hshorter) h rfl
            simpa using hafter.append_left (start :: (inner ++ [stop]))
          · have hrest : 0 < depthAlong 0 rest := by
              by_cases hstop : event = stop
              · rw [hstop] at h
                exact h
              · rwa [depthAlong_other hstart hstop] at h
            exact (ih rest.length hshorter hrest rfl).append_left [event]

theorem outstanding_iff : Outstanding history ↔ 0 < depthAlong 0 history := by
  refine ⟨?_, outstanding_of_depthAlong⟩
  rintro ⟨before, after, rfl, hafter⟩
  rw [depthAlong_append, depthAlong]
  exact Nat.lt_of_le_of_lt (Nat.zero_le _) (lt_depthAlong_of_not_matched hafter _)

private theorem split_concat {before after : List TracingEvent} {first : TracingEvent}
    (h : history ++ [event] = before ++ first :: after) :
    after = [] ∧ first = event ∧ before = history ∨
      ∃ earlier, after = earlier ++ [event] ∧ history = before ++ first :: earlier := by
  rcases List.eq_nil_or_concat' after with rfl | ⟨earlier, last, rfl⟩
  · obtain ⟨hbefore, hfirst⟩ := List.append_inj' h rfl
    exact .inl ⟨rfl, (List.singleton_inj.mp hfirst).symm, hbefore.symm⟩
  · rw [← List.cons_append, ← List.append_assoc] at h
    obtain ⟨hhistory, hlast⟩ := List.append_inj' h rfl
    rw [List.singleton_inj.mp hlast]
    exact .inr ⟨earlier, rfl, hhistory⟩

theorem Recorded.exists_trace (h : Recorded history o record) :
    ∃ className method file line, trace o className method file line ∈ history := by
  obtain ⟨before, after, className, method, file, line, rfl, -⟩ := h
  exact ⟨className, method, file, line, by simp⟩

theorem Recorded.generation_eq (h : Recorded history o record) :
    record.generation = history.count clear := by
  obtain ⟨before, after, className, method, file, line, rfl, -, hclear, -, rfl⟩ := h
  simp [List.count_eq_zero_of_not_mem hclear]

theorem not_recorded_append_clear : ¬ Recorded (history ++ [clear]) o record := by
  rintro ⟨before, after, className, method, file, line, heq, -, hclear, -⟩
  rcases split_concat heq with ⟨-, hfirst, -⟩ | ⟨earlier, rfl, -⟩
  · cases hfirst
  · simp at hclear

theorem recorded_append_trace {className method file : Option String} {line : Nat}
    (h : Outstanding history) :
    Recorded (history ++ [trace o className method file line]) o record ↔
      record = ⟨className, method, file, line, history.count clear⟩ := by
  constructor
  · rintro ⟨before, after, className', method', file', line', heq, -, -, hlast, rfl⟩
    rcases split_concat heq with ⟨-, hfirst, rfl⟩ | ⟨earlier, rfl, rfl⟩
    · cases hfirst
      rfl
    · exact absurd h (hlast earlier [] className method file line rfl)
  · rintro rfl
    exact ⟨history, [], className, method, file, line, rfl, h, by simp, by simp, rfl⟩

/-- Events that clear nothing and trace the object at most while tracing is off. -/
theorem recorded_append_iff (hclear : event ≠ clear)
    (hidle : ∀ className method file line,
      event = trace o className method file line → ¬ Outstanding history) :
    Recorded (history ++ [event]) o record ↔ Recorded history o record := by
  constructor
  · rintro ⟨before, after, className, method, file, line, heq, hon, hkept, hlast, rfl⟩
    rcases split_concat heq with ⟨-, hfirst, rfl⟩ | ⟨earlier, rfl, rfl⟩
    · exact absurd hon (hidle className method file line hfirst.symm)
    · refine ⟨before, earlier, className, method, file, line, rfl, hon, ?_, ?_, rfl⟩
      · exact fun hmem => hkept (List.mem_append_left _ hmem)
      · rintro middle rest className' method' file' line' rfl
        exact hlast middle (rest ++ [event]) className' method' file' line' (by simp)
  · rintro ⟨before, after, className, method, file, line, rfl, hon, hkept, hlast, rfl⟩
    refine ⟨before, after ++ [event], className, method, file, line, by simp, hon, ?_, ?_, rfl⟩
    · simpa [hkept] using hclear.symm
    · intro middle rest className' method' file' line' heq
      rcases split_concat heq with ⟨-, hfirst, rfl⟩ | ⟨earlier, -, rfl⟩
      · exact hidle className' method' file' line' hfirst.symm
      · exact hlast middle earlier className' method' file' line' rfl

end TracingEvent

open TracingEvent

namespace AllocationTable

variable {alive alive' : ObjectRef → Bool} {history : List TracingEvent} {table : AllocationTable}
  {o : ObjectRef} {record : AllocationRecord}

/-- A table that agrees with the history. Its records of dead objects may be gone, those of live
ones are all there. -/
structure Faithful (alive : ObjectRef → Bool) (history : List TracingEvent)
    (table : AllocationTable) : Prop where
  separate : ∀ o p, alive o → alive p → o.address = p.address → o = p
  depth_eq : table.depth = depthAlong 0 history
  generation_eq : table.generation = history.count TracingEvent.clear
  nodup : (table.records.map Prod.fst).Nodup
  keyed : ∀ entry ∈ table.records, entry.1 = entry.2.1.address
  recorded : ∀ entry ∈ table.records, Recorded history entry.2.1 entry.2.2
  complete : ∀ o record, alive o → Recorded history o record →
    (o.address, o, record) ∈ table.records

namespace Faithful

theorem start (h : ∀ o p, alive o → alive p → o.address = p.address → o = p) :
    Faithful alive [] {} where
  separate := h
  depth_eq := rfl
  generation_eq := rfl
  nodup := List.nodup_nil
  keyed := fun _ hmem => by cases hmem
  recorded := fun _ hmem => by cases hmem
  complete := fun _ _ _ hrecorded => by
    obtain ⟨_, _, _, _, hmem⟩ := hrecorded.exists_trace
    cases hmem

theorem isTracing_iff (h : Faithful alive history table) :
    table.isTracing ↔ Outstanding history := by
  rw [outstanding_iff, ← h.depth_eq]
  exact decide_eq_true_iff

theorem stop_of_not_outstanding (h : Faithful alive history table)
    (hoff : ¬ Outstanding history) : table.stop = table := by
  have hzero : table.depth = 0 := by
    apply Nat.eq_zero_of_not_pos
    rw [h.depth_eq, ← outstanding_iff]
    exact hoff
  have hstop : table.depth - 1 = table.depth := by rw [hzero]
  rw [AllocationTable.stop, hstop]

theorem age (h : Faithful alive history table)
    (hseparate : ∀ o p, alive' o → alive' p → o.address = p.address → o = p)
    (hnew : ∀ o, alive' o → alive o ∨ ∀ className method file line,
      TracingEvent.trace o className method file line ∉ history) :
    Faithful alive' history table where
  separate := hseparate
  depth_eq := h.depth_eq
  generation_eq := h.generation_eq
  nodup := h.nodup
  keyed := h.keyed
  recorded := h.recorded
  complete := fun o record ho hrecorded => by
    rcases hnew o ho with hold | huntraced
    · exact h.complete o record hold hrecorded
    · obtain ⟨className, method, file, line, hmem⟩ := hrecorded.exists_trace
      exact absurd hmem (huntraced className method file line)

/-- An event that neither clears nor, while tracing is on, traces anything. -/
theorem idle (h : Faithful alive history table) {event : TracingEvent} (hclear : event ≠ .clear)
    (hidle : ∀ o className method file line,
      event = .trace o className method file line → ¬ Outstanding history)
    {depth : Nat} (hdepth : depth = depthAlong table.depth [event]) :
    Faithful alive (history ++ [event]) { table with depth } where
  separate := h.separate
  depth_eq := by
    rw [depthAlong_append, ← h.depth_eq]
    exact hdepth
  generation_eq := by
    rw [List.count_append, List.count_singleton, if_neg (by simpa using hclear)]
    exact h.generation_eq
  nodup := h.nodup
  keyed := h.keyed
  recorded := fun entry hmem =>
    (recorded_append_iff hclear (hidle entry.2.1)).mpr (h.recorded entry hmem)
  complete := fun o record ho hrecorded =>
    h.complete o record ho ((recorded_append_iff hclear (hidle o)).mp hrecorded)

theorem clear (h : Faithful alive history table) :
    Faithful alive (history ++ [.clear]) table.clear where
  separate := h.separate
  depth_eq := by
    rw [depthAlong_append, ← h.depth_eq]
    rfl
  generation_eq := by
    rw [List.count_append, ← h.generation_eq]
    rfl
  nodup := List.nodup_nil
  keyed := fun _ hmem => by cases hmem
  recorded := fun _ hmem => by cases hmem
  complete := fun _ _ _ hrecorded => absurd hrecorded not_recorded_append_clear

theorem sweep (h : Faithful alive history table) : Faithful alive history (table.sweep alive) where
  separate := h.separate
  depth_eq := h.depth_eq
  generation_eq := h.generation_eq
  nodup := h.nodup.sublist (List.filter_sublist.map _)
  keyed := fun entry hmem => h.keyed entry (List.mem_of_mem_filter hmem)
  recorded := fun entry hmem => h.recorded entry (List.mem_of_mem_filter hmem)
  complete := fun o record ho hrecorded =>
    List.mem_filter.mpr ⟨h.complete o record ho hrecorded, ho⟩

section Trace

variable {className method file : Option String} {line : Nat}

/-- The new record takes the place of whatever stood at the address of its object. -/
theorem trace_on (h : Faithful alive history table) (ho : alive o) (hon : Outstanding history) :
    Faithful alive (history ++ [.trace o className method file line])
      (table.trace o className method file line) := by
  have hother : ∀ p record, p ≠ o →
      (Recorded (history ++ [.trace o className method file line]) p record ↔
        Recorded history p record) := by
    intro p record hne
    refine recorded_append_iff (by simp) fun _ _ _ _ heq => ?_
    cases heq
    exact absurd rfl hne
  have htable : table.trace o className method file line =
      { table with
        records := (o.address, o, ⟨className, method, file, line, table.generation⟩) ::
          table.records.filter fun entry => entry.1 ≠ o.address } :=
    if_pos (h.isTracing_iff.mpr hon)
  rw [htable]
  refine ⟨h.separate, ?_, ?_, ?_, ?_, ?_, ?_⟩
  · rw [depthAlong_append, ← h.depth_eq]
    rfl
  · rw [List.count_append, ← h.generation_eq]
    rfl
  · rw [List.map_cons, List.nodup_cons]
    refine ⟨fun hmem => ?_, h.nodup.sublist (List.filter_sublist.map _)⟩
    obtain ⟨entry, hentry, heq⟩ := List.mem_map.mp hmem
    simpa [heq] using (List.mem_filter.mp hentry).2
  · intro entry hmem
    rcases List.mem_cons.mp hmem with rfl | hmem
    · rfl
    · exact h.keyed entry (List.mem_of_mem_filter hmem)
  · intro entry hmem
    rcases List.mem_cons.mp hmem with rfl | hmem
    · rw [h.generation_eq]
      exact (recorded_append_trace hon).mpr rfl
    · obtain ⟨hold, hne⟩ := List.mem_filter.mp hmem
      refine (hother _ _ fun heq => ?_).mpr (h.recorded entry hold)
      rw [h.keyed entry hold, heq] at hne
      simp at hne
  · intro p record hp hrecorded
    by_cases hpo : p = o
    · subst hpo
      rw [(recorded_append_trace hon).mp hrecorded, h.generation_eq]
      exact List.mem_cons_self
    · have hold := h.complete p record hp ((hother p record hpo).mp hrecorded)
      have hne : p.address ≠ o.address := fun heq => hpo (h.separate p o hp ho heq)
      exact List.mem_cons_of_mem _ (List.mem_filter.mpr ⟨hold, by simpa using hne⟩)

theorem trace (h : Faithful alive history table) (ho : alive o) :
    Faithful alive (history ++ [.trace o className method file line])
      (table.trace o className method file line) := by
  by_cases hon : Outstanding history
  · exact h.trace_on ho hon
  · have hoff : table.trace o className method file line = table :=
      if_neg (mt h.isTracing_iff.mp hon)
    rw [hoff]
    exact h.idle (by simp) (fun _ _ _ _ _ _ => hon) rfl

end Trace

theorem info?_eq_some_iff (h : Faithful alive history table) (ho : alive o) :
    table.info? alive o = some record ↔ Recorded history o record := by
  rw [info?, Option.bind_eq_some_iff]
  simp only [lookup_eq_some_iff_mem h.nodup, Option.ite_none_right_eq_some, Bool.and_eq_true,
    beq_iff_eq, Option.some.injEq]
  constructor
  · rintro ⟨⟨p, found⟩, hmem, ⟨hp, -⟩, rfl⟩
    obtain rfl : o = p := h.separate o p ho hp (h.keyed _ hmem)
    exact h.recorded _ hmem
  · intro hrecorded
    exact ⟨(o, record), h.complete o record ho hrecorded, ⟨ho, rfl⟩, rfl⟩

end Faithful

end AllocationTable

structure TracingRun (φ : Type) where
  space : ObjectSpace φ := {}
  nextSerial : Nat := 0
  objects : List ObjectRef := []
  dead : List ObjectRef := []
  history : List TracingEvent := []

namespace TracingRun

def isAlive (run : TracingRun φ) (o : ObjectRef) : Bool :=
  o ∈ run.objects && o ∉ run.dead

def allows (run : TracingRun φ) : TracingEvent → Bool
  | .allocate address _ _ => run.objects.all fun o => !(run.isAlive o && o.address == address)
  | .die o | .trace o _ _ _ _ => run.isAlive o
  | _ => true

def changeAllocations (f : AllocationTable → AllocationTable) (run : TracingRun φ) :
    TracingRun φ :=
  { run with space := { run.space with allocations := f run.space.allocations } }

def perform (run : TracingRun φ) : TracingEvent → TracingRun φ
  | .allocate address className payload =>
    { run with
      nextSerial := run.nextSerial + 1
      objects := ⟨run.nextSerial, address, className, payload⟩ :: run.objects }
  | .die o => { run with dead := o :: run.dead }
  | .start => run.changeAllocations (·.start)
  | .stop => run.changeAllocations (·.stop)
  | .clear => run.changeAllocations (·.clear)
  | .collect => { run with space := run.space.sweep run.isAlive }
  | .trace o className method file line =>
    run.changeAllocations (·.trace o className method file line)

/-- Events that are not allowed do not occur. -/
def step (run : TracingRun φ) (event : TracingEvent) : TracingRun φ :=
  if run.allows event then { run.perform event with history := run.history ++ [event] } else run

def along (run : TracingRun φ) (events : List TracingEvent) : TracingRun φ :=
  events.foldl step run

structure Sound (run : TracingRun φ) : Prop where
  serial_lt : ∀ o ∈ run.objects, o.serial < run.nextSerial
  traced : ∀ o className method file line,
    TracingEvent.trace o className method file line ∈ run.history → o ∈ run.objects
  faithful : run.space.allocations.Faithful run.isAlive run.history

variable {run : TracingRun φ} {o : ObjectRef}

theorem isAlive_iff : run.isAlive o ↔ o ∈ run.objects ∧ o ∉ run.dead := by
  simp [isAlive]

namespace Sound

theorem start : Sound ({} : TracingRun φ) where
  serial_lt := by simp
  traced := by simp
  faithful := .start (by simp [isAlive])

theorem traced_append (h : Sound run) {event : TracingEvent} (hallowed : run.allows event) :
    ∀ o className method file line,
      TracingEvent.trace o className method file line ∈ run.history ++ [event] →
        o ∈ run.objects := by
  intro o className method file line hmem
  rcases List.mem_append.mp hmem with hmem | hmem
  · exact h.traced o className method file line hmem
  · rw [← List.mem_singleton.mp hmem] at hallowed
    exact (isAlive_iff.mp hallowed).1

theorem allocate (h : Sound run) {address : Nat} {className : String} {payload : Option String}
    (hallowed : run.allows (.allocate address className payload)) :
    Sound (run.step (.allocate address className payload)) := by
  rw [TracingRun.step, if_pos hallowed]
  have hfresh : ∀ p ∈ run.objects, p ≠ ⟨run.nextSerial, address, className, payload⟩ := by
    rintro p hp rfl
    exact Nat.lt_irrefl _ (h.serial_lt _ hp)
  have hapart : ∀ p, run.isAlive p → p.address ≠ address := by
    intro p hp
    have hclear := List.all_eq_true.mp hallowed p (isAlive_iff.mp hp).1
    simpa [hp] using hclear
  have hold : ∀ p ∈ run.objects,
      (run.perform (.allocate address className payload)).isAlive p → run.isAlive p := by
    intro p hp halive
    exact isAlive_iff.mpr ⟨hp, (isAlive_iff.mp halive).2⟩
  refine ⟨?_, ?_, ?_⟩
  · intro p hp
    rcases List.mem_cons.mp hp with rfl | hp
    · exact Nat.lt_succ_self _
    · exact Nat.lt_succ_of_lt (h.serial_lt p hp)
  · intro p className method file line hmem
    exact List.mem_cons_of_mem _ (h.traced_append hallowed p className method file line hmem)
  · refine AllocationTable.Faithful.idle ?_ (by simp) (by simp) rfl
    refine h.faithful.age ?_ ?_
    · intro p q hp hq heq
      rcases List.mem_cons.mp (isAlive_iff.mp hp).1 with rfl | hpold <;>
        rcases List.mem_cons.mp (isAlive_iff.mp hq).1 with rfl | hqold
      · rfl
      · exact absurd heq.symm (hapart q (hold q hqold hq))
      · exact absurd heq (hapart p (hold p hpold hp))
      · exact h.faithful.separate p q (hold p hpold hp) (hold q hqold hq) heq
    · intro p hp
      rcases List.mem_cons.mp (isAlive_iff.mp hp).1 with rfl | hpold
      · exact .inr fun _ _ _ _ hmem => hfresh _ (h.traced _ _ _ _ _ hmem) rfl
      · exact .inl (hold p hpold hp)

theorem die (h : Sound run) (hallowed : run.allows (.die o)) : Sound (run.step (.die o)) := by
  rw [TracingRun.step, if_pos hallowed]
  have hold : ∀ p, (run.perform (.die o)).isAlive p → run.isAlive p := by
    intro p hp
    obtain ⟨hmem, hdead⟩ := isAlive_iff.mp hp
    exact isAlive_iff.mpr ⟨hmem, fun hp => hdead (List.mem_cons_of_mem _ hp)⟩
  refine ⟨h.serial_lt, h.traced_append hallowed, ?_⟩
  refine AllocationTable.Faithful.idle ?_ (by simp) (by simp) rfl
  refine h.faithful.age ?_ fun p hp => .inl (hold p hp)
  exact fun p q hp hq => h.faithful.separate p q (hold p hp) (hold q hq)

theorem step (h : Sound run) (event : TracingEvent) : Sound (run.step event) := by
  by_cases hallowed : run.allows event
  · have htraced := h.traced_append hallowed
    have hfaithful := h.faithful
    cases event with
    | allocate address className payload => exact h.allocate hallowed
    | die o => exact h.die hallowed
    | start => exact ⟨h.serial_lt, htraced, hfaithful.idle (by simp) (by simp) rfl⟩
    | stop => exact ⟨h.serial_lt, htraced, hfaithful.idle (by simp) (by simp) rfl⟩
    | clear => exact ⟨h.serial_lt, htraced, hfaithful.clear⟩
    | collect => exact ⟨h.serial_lt, htraced, (hfaithful.idle (by simp) (by simp) rfl).sweep⟩
    | trace o className method file line =>
        rw [TracingRun.step, if_pos hallowed]
        exact ⟨h.serial_lt, htraced, hfaithful.trace hallowed⟩
  · rw [TracingRun.step, if_neg hallowed]
    exact h

theorem along (h : Sound run) (events : List TracingEvent) : Sound (run.along events) := by
  induction events generalizing run with
  | nil => exact h
  | cons event rest ih => exact ih (h.step event)

end Sound

theorem length_history_along (run : TracingRun φ) (events : List TracingEvent) :
    (run.along events).history.length ≤ run.history.length + events.length := by
  induction events generalizing run with
  | nil => exact Nat.le_refl _
  | cons event rest ih =>
      have hstep : (run.step event).history.length ≤ run.history.length + 1 := by
        rw [step]
        split
        · simp
        · exact Nat.le_succ _
      have hrest : ((run.step event).along rest).history.length ≤ _ := ih (run.step event)
      show ((run.step event).along rest).history.length ≤ run.history.length + (rest.length + 1)
      omega

/-- The allocation table says what the history says, whatever has happened to a space and its
objects. Tracing is on exactly while some start has no matching stop, and a stop without a start is
ignored. The record shown for a live object is the one that was traced last for this very object
while tracing was on and has not been cleared since; if there is none, none is shown. The generation
counts how often the records were cleared, and all records are of the current one. The depth and the
generation are at most the number of events, so fewer events than a word can count never make them
wrap. -/
theorem tracing_follows_history (events : List TracingEvent) :
    let run := ({} : TracingRun φ).along events
    let table := run.space.allocations
    (table.isTracing ↔ Outstanding run.history) ∧
      (¬ Outstanding run.history → table.stop = table) ∧
      (∀ o, run.isAlive o → ∀ record,
        table.info? run.isAlive o = some record ↔ Recorded run.history o record) ∧
      table.generation = run.history.count .clear ∧
      (∀ entry ∈ table.records, entry.2.2.generation = table.generation) ∧
      table.depth ≤ events.length ∧ table.generation ≤ events.length := by
  intro run table
  have h : Sound run := Sound.start.along events
  have hdepth := depthAlong_le 0 run.history
  have hlength := length_history_along ({} : TracingRun φ) events
  have hclears := run.history.count_le_length (a := TracingEvent.clear)
  simp only [List.length_nil, Nat.zero_add] at hdepth hlength
  refine ⟨h.faithful.isTracing_iff, h.faithful.stop_of_not_outstanding, fun o ho record =>
    h.faithful.info?_eq_some_iff ho, h.faithful.generation_eq, fun entry hmem => ?_, ?_, ?_⟩
  · rw [(h.faithful.recorded entry hmem).generation_eq]
    exact h.faithful.generation_eq.symm
  · rw [h.faithful.depth_eq]
    exact Nat.le_trans hdepth hlength
  · rw [h.faithful.generation_eq]
    exact Nat.le_trans hclears hlength

private def former : ObjectRef := ⟨0, 16, "Object", none⟩

private def tenant : ObjectRef := ⟨1, 16, "Object", none⟩

/-- An object is traced and dies, and its address passes to another one, which is traced once while
tracing is on and once while it is off. -/
def reusedSite : List TracingEvent := [
  .stop, .start, .allocate 16 "Object" none, .clear, .trace former none none (some "old.rb") 1,
  .die former, .allocate 16 "Object" none, .start, .trace tenant none none (some "new.rb") 2, .stop,
  .collect, .stop, .trace tenant none none (some "late.rb") 3]

theorem tracing_follows_history_reusedSite :
    let run := ({} : TracingRun Unit).along reusedSite
    run.history = reusedSite ∧ run.isAlive tenant ∧ ¬ Outstanding run.history ∧
      Recorded run.history tenant ⟨none, none, some "new.rb", 2, 1⟩ := by
  intro run
  obtain ⟨htracing, -, hinfo, -⟩ := tracing_follows_history (φ := Unit) reusedSite
  have halive : run.isAlive tenant := by decide +kernel
  have hoff : ¬ run.space.allocations.isTracing := by decide +kernel
  refine ⟨by decide +kernel, halive, mt htracing.mpr hoff, ?_⟩
  exact (hinfo tenant halive _).mp (by decide +kernel)

end TracingRun

end RubyRuntime
