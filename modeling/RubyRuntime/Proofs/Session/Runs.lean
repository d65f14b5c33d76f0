import RubyRuntime.Proofs.Session.Effects
import RubyRuntime.Session.Schedule

/-!
# Runs of a session

A run is any sequence of steps by any executors, with the clock moving on at any point. What holds
at the start of a session and is kept by every step holds throughout every run. The schedule that a
session is run by is one of these runs.
-/
namespace RubyRuntime.Session

/-- What can happen next: an executor takes a step, or time passes. -/
inductive Move where
  | step (me : Nat)
  | tick (millis : Nat)

namespace Machine

def tick (m : Machine) (millis : Nat) : Machine :=
  { m with world := { m.world with clock := m.world.clock + millis } }

def move (m : Machine) : Move → Machine
  | .step me => m.step me
  | .tick millis => m.tick millis

def follow (m : Machine) (moves : List Move) : Machine :=
  moves.foldl move m

/-- Whether `p` holds of every step of a run, when it is about to be taken. -/
def along (p : Machine → Nat → Bool) : Machine → List Move → Bool
  | _, [] => true
  | m, .step me :: moves => p m me && (m.step me).along p moves
  | m, .tick millis :: moves => (m.tick millis).along p moves

/-- What `f` notes of each step of a run when it is about to be taken, in order. -/
def log {β : Type} (f : Machine → Nat → List β) : Machine → List Move → List β
  | _, [] => []
  | m, .step me :: moves => f m me ++ (m.step me).log f moves
  | m, .tick millis :: moves => (m.tick millis).log f moves

@[simp] theorem follow_nil (m : Machine) : m.follow [] = m :=
  rfl

@[simp] theorem follow_step (m : Machine) (me : Nat) (moves : List Move) :
    m.follow (.step me :: moves) = (m.step me).follow moves :=
  rfl

@[simp] theorem follow_tick (m : Machine) (millis : Nat) (moves : List Move) :
    m.follow (.tick millis :: moves) = (m.tick millis).follow moves :=
  rfl

theorem along_and (p q : Machine → Nat → Bool) (m : Machine) (moves : List Move) :
    m.along (fun m me => p m me && q m me) moves = (m.along p moves && m.along q moves) := by
  induction moves generalizing m with
  | nil => rfl
  | cons move moves ih =>
      cases move with
      | step me =>
          simp only [along, ih]
          ac_rfl
      | tick millis => exact ih (m.tick millis)

theorem follow_keeps {P : Machine → Prop} {p : Machine → Nat → Bool} {m : Machine}
    {moves : List Move} (hstep : ∀ m me, p m me → P m → P (m.step me))
    (htick : ∀ m millis, P m → P (tick m millis)) (halong : m.along p moves) (h : P m) :
    P (m.follow moves) := by
  induction moves generalizing m with
  | nil => exact h
  | cons move moves ih =>
      cases move with
      | step me =>
          simp only [along, Bool.and_eq_true] at halong
          exact ih halong.2 (hstep m me halong.1 h)
      | tick millis => exact ih halong (htick m millis h)

/-- What every step keeps, whoever takes it, and the passing of time keep is kept by every run. -/
theorem follow_always {P : Machine → Prop} {m : Machine} (moves : List Move)
    (hstep : ∀ m me, P m → P (step m me)) (htick : ∀ m millis, P m → P (tick m millis)) (h : P m) :
    P (m.follow moves) := by
  induction moves generalizing m with
  | nil => exact h
  | cons move moves ih =>
      cases move with
      | step me => exact ih (hstep m me h)
      | tick millis => exact ih (htick m millis h)

/-- The schedule of a session is a run. -/
theorem exists_run_eq_follow (m : Machine) (turns : List Nat) (fuel : Nat) :
    ∃ moves, m.run turns fuel = m.follow moves := by
  induction fuel generalizing m turns with
  | zero => exact ⟨[], rfl⟩
  | succ fuel ih =>
      rw [run]
      split
      · exact ⟨[], rfl⟩
      · split
        · next me others hturns =>
          obtain ⟨moves, hmoves⟩ := ih (m.step me) (me :: others)
          exact ⟨.step me :: moves, hmoves⟩
        · split
          · next later hwait =>
            obtain ⟨millis, rfl⟩ : ∃ millis, later = m.tick millis := by
              obtain ⟨time, -, hpatience⟩ := Option.bind_eq_some_iff.mp hwait
              obtain ⟨-, -, hlater⟩ := Option.bind_eq_some_iff.mp hpatience
              have hclock : max m.world.clock time =
                  m.world.clock + (time - m.world.clock) := by omega
              refine ⟨time - m.world.clock, ?_⟩
              rw [tick, ← hclock]
              exact (Option.some.inj hlater).symm
            obtain ⟨moves, hmoves⟩ := ih (m.tick millis) []
            exact ⟨.tick millis :: moves, hmoves⟩
          · exact ⟨[], rfl⟩

def actor? (m : Machine) (me : Nat) : Option ThreadId :=
  m.executors[me]?.bind (·.actor? m.world)

def tampered? (m : Machine) (me : Nat) : Option LockId :=
  m.executors[me]?.bind (·.tampered? m.world)

theorem lockMove_step (m : Machine) (me : Nat) :
    ∃ s, m.world.sync.Alike s ∧
      Sync.LockMove (m.actor? me) (m.tampered? me) s (m.step me).world.sync := by
  rcases m.step_cases me with hsame | ⟨e, he, e', spawned, hadvance, -, -⟩
  · rw [hsame]
    exact ⟨m.world.sync, .refl _, .still (Sync.Alike.refl _).toSameLocks⟩
  · have hactor : m.actor? me = e.actor? m.world := by simp [actor?, he]
    have htampered : m.tampered? me = e.tampered? m.world := by simp [tampered?, he]
    rw [hactor, htampered]
    exact hadvance.lockMove

theorem keeps_lock {m : Machine} {me : Nat} {t : ThreadId} {l : LockId}
    (hactor : m.actor? me ≠ some t) (howner : (m.world.sync.lock l).owner = some t) :
    ((m.step me).world.sync.lock l).owner = some t ∧
      ((m.step me).world.sync.lock l).holds = (m.world.sync.lock l).holds := by
  obtain ⟨s, halike, hmove⟩ := m.lockMove_step me
  obtain ⟨howner', hholds'⟩ := hmove.keeps_lock hactor ((halike.owner l).trans howner)
  exact ⟨howner'.trans ((halike.owner l).trans howner), hholds'.trans (halike.holds l)⟩

theorem keeps_foreign {m : Machine} {me : Nat} {t : ThreadId} {l : LockId}
    (hactor : m.actor? me ≠ some t) (howner : (m.world.sync.lock l).owner ≠ some t) :
    ((m.step me).world.sync.lock l).owner ≠ some t := by
  obtain ⟨s, halike, hmove⟩ := m.lockMove_step me
  apply hmove.keeps_foreign hactor
  rw [halike.owner l]
  exact howner

theorem keeps_list {m : Machine} {me : Nat} {t : ThreadId} (hactor : m.actor? me ≠ some t) :
    ((m.step me).world.thread t).ownedLocks = (m.world.thread t).ownedLocks := by
  obtain ⟨s, halike, hmove⟩ := m.lockMove_step me
  exact (hmove.keeps_list hactor).trans (halike.owned t)

theorem executors_put {m : Machine} {me : Nat} {e : Executor} (he : m.executors[me]? = some e)
    (current : Option ThreadId) (task : Task) :
    (m.put me current task).executors[me]? = some ⟨current, task.control, task.stack⟩ :=
  List.getElem?_set_self (List.getElem?_eq_some_iff.mp he).1

theorem executors_step_of_ne {m : Machine} {me i : Nat} {x : Executor} (hi : i ≠ me)
    (hx : m.executors[i]? = some x) : (m.step me).executors[i]? = some x := by
  rcases m.step_cases me with hsame | ⟨e, he, e', spawned, -, hexecutors, -⟩
  · rw [hsame]
    exact hx
  · have hlength : i < m.executors.length := (List.getElem?_eq_some_iff.mp hx).1
    rw [hexecutors, List.getElem?_append_left (by simpa using hlength),
      List.getElem?_set_ne hi.symm]
    exact hx

theorem exists_executor_step {m : Machine} {me : Nat} {e : Executor}
    (he : m.executors[me]? = some e) : ∃ e', (m.step me).executors[me]? = some e' := by
  have hlength : me < m.executors.length := (List.getElem?_eq_some_iff.mp he).1
  rcases m.step_cases me with hsame | ⟨old, -, e', spawned, -, hexecutors, -⟩
  · exact ⟨e, by rw [hsame, he]⟩
  · refine ⟨e', ?_⟩
    rw [hexecutors, List.getElem?_append_left (by simpa using hlength),
      List.getElem?_set_self hlength]

theorem executors_step_cases {m : Machine} {me i : Nat} {x : Executor}
    (hx : (m.step me).executors[i]? = some x) :
    m.executors[i]? = some x ∧ (i = me → m.step me = m) ∨
      (∃ e, i = me ∧ m.executors[me]? = some e ∧
        Advance me m.world e ⟨(m.step me).world, x.control, x.stack⟩) ∨ x.Fresh := by
  rcases m.step_cases me with hsame | ⟨e, he, e', spawned, hadvance, hexecutors, hfresh⟩
  · rw [hsame] at hx
    exact .inl ⟨hx, fun _ => hsame⟩
  · rw [hexecutors] at hx
    by_cases hlength : i < m.executors.length
    · rw [List.getElem?_append_left (by simpa using hlength)] at hx
      by_cases hi : i = me
      · subst hi
        rw [List.getElem?_set_self hlength] at hx
        cases hx
        exact .inr (.inl ⟨e, rfl, he, hadvance⟩)
      · rw [List.getElem?_set_ne (Ne.symm hi)] at hx
        exact .inl ⟨hx, fun h => absurd h hi⟩
    · rw [List.getElem?_append_right (by simpa using hlength)] at hx
      exact .inr (.inr (hfresh x (List.mem_of_getElem? hx)))

end Machine

/-- What mentioning an entity keeps holds at the start of a session if it holds of the empty
world. -/
theorem Script.start_keeps {P : World → Prop}
    (hmention : ∀ w watched, P w → P (World.mention watched w)) {script : Script}
    (hempty : P { options := script.options }) : P script.start.world := by
  have hworld : script.start.world = script.watched.foldl (fun w watched => w.mention watched)
      { options := script.options } := by
    simp only [Script.start, nextStep]
    split <;> rfl
  rw [hworld]
  generalize script.watched = watched
  generalize ({ options := script.options } : World) = w at hempty
  induction watched generalizing w with
  | nil => exact hempty
  | cons first rest ih => exact ih _ (hmention w first hempty)

theorem Script.alike_start (script : Script) :
    Sync.Alike ({} : Sync Action) script.start.world.sync :=
  start_keeps (P := fun w => World.Alike { options := script.options } w)
    (fun w watched h => h.trans (w.alike_mention watched)) (.refl _)

theorem Script.fresh_start {script : Script} {i : Nat} {x : Executor}
    (hx : script.start.executors[i]? = some x) : x.Fresh := by
  have hmem := List.mem_of_getElem? hx
  rw [Script.start, List.mem_singleton] at hmem
  rw [hmem]
  simp only [nextStep]
  split
  · exact ⟨.inr ⟨_, rfl⟩, .inl rfl⟩
  · exact ⟨.inl ⟨_, rfl⟩, .inr ⟨_, _, rfl, rfl⟩⟩

end RubyRuntime.Session
