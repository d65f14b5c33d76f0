import Mathlib.Data.List.InsertIdx
import RubyRuntime.Proofs.Backtrace.Rendering

/-!
# Frames and their guards

Whoever enters a frame gets a guard, which remembers no more than a depth: dropping it cuts the
stack back to below its frame. A guard may also be abandoned, and then its frame stays until a guard
further out is dropped. Main result: at every moment the stack consists of the frames that were
entered and have not been left since, and dropping the innermost guard brings back the stack as it
was when the guard's frame was entered, locations included. A backtrace shows the stack of the
moment of its capture, however late it is read.
-/
namespace RubyRuntime

namespace CallStack

theorem truncate_append (inner outer : List StackFrame) :
    truncate outer.length ⟨inner ++ outer⟩ = ⟨outer⟩ := by
  simp [truncate]

end CallStack

/-- What happens on a call stack. `leave` drops the innermost guard that is held, so frames are left
in the opposite order of their entry; `abandon n` gives up the guard that is `n` further out than
the innermost one. -/
inductive StackEvent where
  | enter (frame : StackFrame)
  | move (location : SourceLocation)
  | leave
  | abandon (n : Nat)
  | capture (omitted : Nat)
  | use (n : Nat) (use : BacktraceUse)

/-- A call stack with the guards that are held, innermost first, each the depth of the stack with
its frame on top, and the backtraces captured so far. -/
structure StackRun where
  stack : CallStack := {}
  guards : List Nat := []
  captures : List Backtrace := []

namespace StackRun

def step (run : StackRun) : StackEvent → StackRun
  | .enter frame =>
    let stack := run.stack.push frame
    { run with stack, guards := stack.depth :: run.guards }
  | .move location => { run with stack := run.stack.setLocation location }
  | .leave =>
    match run.guards with
    | guard :: rest => { run with stack := run.stack.truncate (guard - 1), guards := rest }
    | [] => run
  | .abandon n => { run with guards := run.guards.eraseIdx n }
  | .capture omitted =>
    { run with captures := run.captures ++ [Backtrace.ofFrames run.stack.frames omitted] }
  | .use n use => { run with captures := run.captures.modify n use.apply }

def after : List StackEvent → StackRun
  | [] => {}
  | event :: past => (after past).step event

end StackRun

structure Entry where
  frame : StackFrame
  past : List StackEvent

namespace Entry

def moveTo (location : SourceLocation) (entry : Entry) : Entry :=
  { entry with frame := { entry.frame with location := some location } }

end Entry

namespace StackEvent

/-- For each guard that is held, innermost first, what had happened before its frame was entered. -/
def held : List StackEvent → List (List StackEvent)
  | [] => []
  | enter _ :: past => past :: held past
  | leave :: past => (held past).tail
  | abandon n :: past => (held past).eraseIdx n
  | _ :: past => held past

/-- The frames that were entered and have not been left, innermost first. Dropping a guard leaves
its own frame and all that were entered later. -/
def present : List StackEvent → List Entry
  | [] => []
  | enter frame :: past => ⟨frame, past⟩ :: present past
  | move location :: past => (present past).modifyHead (Entry.moveTo location)
  | leave :: past =>
    match held past with
    | before :: _ => (present past).filter (·.past.length < before.length)
    | [] => present past
  | _ :: past => present past

def uses (n : Nat) : List StackEvent → List BacktraceUse
  | [] => []
  | use m u :: past => if m = n then uses n past ++ [u] else uses n past
  | _ :: past => uses n past

variable {history past before : List StackEvent}

theorem length_lt_of_mem_held (h : before ∈ held history) : before.length < history.length := by
  induction history with
  | nil => cases h
  | cons event past ih =>
      rw [List.length_cons]
      have hpast : before ∈ held past → before.length < past.length + 1 :=
        fun h => Nat.lt_succ_of_lt (ih h)
      cases event with
      | enter frame =>
          rcases List.mem_cons.mp h with rfl | h
          · exact Nat.lt_succ_self _
          · exact hpast h
      | leave => exact hpast (List.mem_of_mem_tail h)
      | abandon n => exact hpast (List.mem_of_mem_eraseIdx h)
      | move | capture | use => exact hpast h

theorem held_pairwise (history : List StackEvent) :
    (held history).Pairwise fun inner outer => outer.length < inner.length := by
  induction history with
  | nil => exact .nil
  | cons event past ih =>
      cases event with
      | enter frame => exact .cons (fun _ => length_lt_of_mem_held) ih
      | leave => exact ih.sublist (List.tail_sublist _)
      | abandon n => exact ih.sublist (List.eraseIdx_sublist _ _)
      | move | capture | use => exact ih

theorem map_past_moveTo (location : SourceLocation) (entries : List Entry) :
    (entries.modifyHead (Entry.moveTo location)).map Entry.past = entries.map Entry.past := by
  cases entries <;> rfl

theorem map_past_leave_sublist (past : List StackEvent) :
    ((present (leave :: past)).map Entry.past).Sublist ((present past).map Entry.past) := by
  rw [present]
  split
  · exact (List.filter_sublist).map _
  · exact .refl _

theorem length_lt_of_mem_present (h : before ∈ (present history).map Entry.past) :
    before.length < history.length := by
  induction history with
  | nil => cases h
  | cons event past ih =>
      rw [List.length_cons]
      have hpast : before ∈ (present past).map Entry.past → before.length < past.length + 1 :=
        fun h => Nat.lt_succ_of_lt (ih h)
      cases event with
      | enter frame =>
          rcases List.mem_cons.mp h with rfl | h
          · exact Nat.lt_succ_self _
          · exact hpast h
      | move location =>
          rw [present, map_past_moveTo] at h
          exact hpast h
      | leave => exact hpast ((map_past_leave_sublist past).subset h)
      | abandon | capture | use => exact hpast h

theorem filter_present_of_le {bound : Nat} (h : before.length ≤ bound) :
    (present before).filter (·.past.length < bound) = present before := by
  apply List.filter_eq_self.mpr
  intro entry hentry
  have hpast := length_lt_of_mem_present (List.mem_map_of_mem hentry)
  exact decide_eq_true (Nat.lt_of_lt_of_le hpast h)

theorem present_pairwise (history : List StackEvent) :
    ((present history).map Entry.past).Pairwise fun inner outer =>
      outer.length < inner.length := by
  induction history with
  | nil => exact .nil
  | cons event past ih =>
      cases event with
      | enter frame => exact .cons (fun _ => length_lt_of_mem_present) ih
      | move location =>
          rw [present, map_past_moveTo]
          exact ih
      | leave => exact ih.sublist (map_past_leave_sublist past)
      | abandon | capture | use => exact ih

/-- The entry of a guard's own frame, with the frames entered later on top of it and below it those
that were present before, which nobody can have moved. -/
theorem exists_own (h : before ∈ held history) :
    ∃ inner own, present history = inner ++ own :: present before ∧ own.past = before ∧
      ∀ entry ∈ inner, before.length < entry.past.length := by
  induction history with
  | nil => cases h
  | cons event past ih =>
      cases event with
      | enter frame =>
          rcases List.mem_cons.mp h with rfl | h
          · exact ⟨[], ⟨frame, before⟩, rfl, rfl, by simp⟩
          · obtain ⟨inner, own, hpresent, hown, hinner⟩ := ih h
            refine ⟨⟨frame, past⟩ :: inner, own, by rw [present, hpresent]; rfl, hown, ?_⟩
            rintro entry (_ | ⟨_, hentry⟩)
            · exact length_lt_of_mem_held h
            · exact hinner entry hentry
      | move location =>
          obtain ⟨inner, own, hpresent, hown, hinner⟩ := ih h
          rw [present, hpresent]
          cases inner with
          | nil => exact ⟨[], own.moveTo location, rfl, hown, by simp⟩
          | cons top rest =>
              refine ⟨top.moveTo location :: rest, own, rfl, hown, ?_⟩
              rintro entry (_ | ⟨_, hentry⟩)
              · exact hinner top List.mem_cons_self
              · exact hinner entry (List.mem_cons_of_mem _ hentry)
      | leave =>
          obtain ⟨inner, own, hpresent, hown, hinner⟩ := ih (List.mem_of_mem_tail h)
          rw [held] at h
          rw [present]
          cases hheld : held past with
          | nil => exact ⟨inner, own, hpresent, hown, hinner⟩
          | cons first rest =>
              -- The frame of a guard further out was entered before that of the dropped one.
              have hsorted := held_pairwise past
              rw [hheld] at h hsorted
              have hfirst : before.length < first.length :=
                (List.pairwise_cons.mp hsorted).1 before h
              refine ⟨inner.filter (·.past.length < first.length), own, ?_, hown, ?_⟩
              · have hkept : decide (own.past.length < first.length) :=
                  decide_eq_true (hown ▸ hfirst)
                dsimp only
                rw [hpresent, List.filter_append, List.filter_cons, if_pos hkept,
                  filter_present_of_le (Nat.le_of_lt hfirst)]
              · intro entry hentry
                exact hinner entry (List.mem_of_mem_filter hentry)
      | abandon n => exact ih (List.mem_of_mem_eraseIdx h)
      | capture | use => exact ih h

theorem present_leave {rest : List (List StackEvent)} (h : held history = before :: rest) :
    present (leave :: history) = present before := by
  obtain ⟨inner, own, hpresent, hown, hinner⟩ := exists_own (h ▸ List.mem_cons_self)
  have hleft : ¬ own.past.length < before.length := by
    rw [hown]
    exact Nat.lt_irrefl _
  have hinnerLeft : inner.filter (·.past.length < before.length) = [] := by
    apply List.filter_eq_nil_iff.mpr
    intro entry hentry
    simpa using Nat.le_of_lt (hinner entry hentry)
  simp only [present, h, hpresent]
  rw [List.filter_append, hinnerLeft, List.filter_cons_of_neg (by simpa using hleft),
    filter_present_of_le (Nat.le_refl _), List.nil_append]

end StackEvent

open StackEvent

namespace StackRun

variable {history past before : List StackEvent}

/-- The stack and the guards are what the history says. -/
structure Traced (history : List StackEvent) (run : StackRun) : Prop where
  stack_eq : run.stack = ⟨(present history).map Entry.frame⟩
  guards_eq : run.guards = (held history).map fun before => (present before).length + 1

namespace Traced

variable {run : StackRun}

theorem depth_eq (h : Traced history run) : run.stack.depth = (present history).length := by
  rw [h.stack_eq, CallStack.depth, List.length_map]

theorem truncate_eq (h : Traced history run) (hheld : before ∈ held history) :
    run.stack.truncate (present before).length = ⟨(present before).map Entry.frame⟩ := by
  obtain ⟨inner, own, hpresent, -⟩ := exists_own hheld
  have hlength : (present before).length = ((present before).map Entry.frame).length := by simp
  rw [h.stack_eq, hpresent, List.append_cons, List.map_append, hlength, CallStack.truncate_append]

theorem leave (h : Traced past run) : Traced (.leave :: past) (run.step .leave) := by
  have hguards := h.guards_eq
  cases hheld : held past with
  | nil =>
      rw [hheld, List.map_nil] at hguards
      have hstep : run.step .leave = run := by simp only [StackRun.step, hguards]
      have hpresent : present (.leave :: past) = present past := by simp only [present, hheld]
      rw [hstep]
      refine ⟨hpresent ▸ h.stack_eq, ?_⟩
      rw [StackEvent.held, hheld]
      exact hguards
  | cons before rest =>
      have hbefore : before ∈ held past := hheld ▸ List.mem_cons_self
      rw [hheld, List.map_cons] at hguards
      simp only [StackRun.step, hguards]
      refine ⟨?_, ?_⟩
      · rw [present_leave hheld]
        exact h.truncate_eq hbefore
      · rw [StackEvent.held, hheld]
        rfl

theorem step (h : Traced past run) (event : StackEvent) :
    Traced (event :: past) (run.step event) := by
  have hstack := h.stack_eq
  have hguards := h.guards_eq
  cases event with
  | enter frame =>
      have hdepth : (run.stack.push frame).depth = (present past).length + 1 :=
        congrArg (· + 1) h.depth_eq
      refine ⟨by rw [StackRun.step, hstack]; rfl, ?_⟩
      rw [StackRun.step, hdepth, hguards]
      rfl
  | move location =>
      refine ⟨?_, hguards⟩
      rw [StackRun.step, hstack, present]
      cases present past <;> rfl
  | leave => exact h.leave
  | abandon n =>
      refine ⟨hstack, ?_⟩
      rw [StackRun.step, hguards, held, List.eraseIdx_map]
  | capture | use => exact ⟨hstack, hguards⟩

theorem after (history : List StackEvent) : Traced history (StackRun.after history) := by
  induction history with
  | nil => exact ⟨rfl, rfl⟩
  | cons event past ih => exact ih.step event

end Traced

theorem stack_after (history : List StackEvent) :
    (after history).stack = ⟨(present history).map Entry.frame⟩ :=
  (Traced.after history).stack_eq

theorem depth_after (history : List StackEvent) :
    (after history).stack.depth = (present history).length :=
  (Traced.after history).depth_eq

theorem getElem?_captures (later : List StackEvent) (omitted : Nat) (past : List StackEvent) :
    (after (later ++ .capture omitted :: past)).captures[(after past).captures.length]? =
      some ((Backtrace.ofFrames (after past).stack.frames omitted).along
        (uses (after past).captures.length later)) := by
  induction later with
  | nil => exact List.getElem?_concat_length
  | cons event later ih =>
      rw [List.cons_append, after]
      cases event with
      | enter | move | abandon => exact ih
      | leave =>
          rw [step]
          split <;> exact ih
      | capture =>
          have hlt := (List.getElem?_eq_some_iff.mp ih).1
          rw [step, List.getElem?_append_left hlt]
          exact ih
      | use m u =>
          rw [step, List.getElem?_modify, ih, uses]
          split
          · simp [Backtrace.along]
          · rfl

/-- At every moment a call stack consists of the frames that were entered and not left since, those
that were entered last innermost, each where it was last while it was innermost. Dropping the
innermost guard brings back the stack of the moment before its frame was entered, whatever guards
were abandoned meanwhile and wherever their frames were moved; so does cutting back to below the
frame of any guard that is held, which drops the guards inside it too. The activations of a
backtrace are those of the stack at its capture, cut to the limit that was set when they were first
read. -/
theorem guards_restore_stack (history : List StackEvent) :
    let run := after history
    run.stack.frames = (present history).map Entry.frame ∧
      run.stack.depth = (present history).length ∧
      ((present history).map Entry.past).Pairwise (fun inner outer =>
        outer.length < inner.length) ∧
      (∀ before rest, held history = before :: rest →
        (after (.leave :: history)).stack = (after before).stack) ∧
      (∀ before ∈ held history,
        run.stack.truncate (after before).stack.depth = (after before).stack) ∧
      ∀ later omitted past, history = later ++ .capture omitted :: past →
        let n := (after past).captures.length
        ∃ backtrace, run.captures[n]? = some backtrace ∧
          backtrace.activations = Materialized.pipeline (after past).stack.frames omitted
            (BacktraceUse.limitInEffect (uses n later)) := by
  intro run
  refine ⟨congrArg CallStack.frames (stack_after history), depth_after history,
    present_pairwise history, ?_, ?_, ?_⟩
  · intro before rest hheld
    rw [stack_after, present_leave hheld, ← stack_after]
  · intro before hbefore
    rw [depth_after, stack_after before]
    exact (Traced.after history).truncate_eq hbefore
  · rintro later omitted past rfl n
    exact ⟨_, getElem?_captures later omitted past,
      (Capture.stack (after past).stack.frames omitted).activations_along (uses n later)⟩

private def mainFrame : StackFrame := ⟨"<main>", .ruby, false, some ⟨"app.rb", 1⟩⟩

/-- A backtrace is captured in the main program, which then calls `run`, and that `helper`. The
guard of `helper` is abandoned and its frame moved, before the backtrace is read. -/
private def abandonedHelper : List StackEvent := [
  .use 0 (.ask {} .activations), .move ⟨"app.rb", 9⟩, .abandon 0,
  .enter ⟨"helper", .ruby, false, none⟩, .enter ⟨"run", .ruby, false, some ⟨"app.rb", 5⟩⟩,
  .capture 0, .enter mainFrame]

theorem guards_restore_stack_abandonedHelper :
    let run := after abandonedHelper
    run.stack.depth = 3 ∧
      held abandonedHelper = [[.capture 0, .enter mainFrame], []] ∧
      (after (.leave :: abandonedHelper)).stack = ⟨[mainFrame]⟩ ∧
      ∃ backtrace, run.captures[0]? = some backtrace ∧
        backtrace.activations = [.frame (some ⟨"app.rb", 1⟩) "<main>" .ruby] := by
  intro run
  obtain ⟨-, hdepth, -, hleave, -, hcaptures⟩ := guards_restore_stack abandonedHelper
  obtain ⟨backtrace, hbacktrace, hactivations⟩ := hcaptures
    [.use 0 (.ask {} .activations), .move ⟨"app.rb", 9⟩, .abandon 0,
      .enter ⟨"helper", .ruby, false, none⟩, .enter ⟨"run", .ruby, false, some ⟨"app.rb", 5⟩⟩]
    0 [.enter mainFrame] rfl
  exact ⟨hdepth, rfl, hleave _ _ rfl, backtrace, hbacktrace, hactivations.trans (by decide)⟩

end StackRun

end RubyRuntime
