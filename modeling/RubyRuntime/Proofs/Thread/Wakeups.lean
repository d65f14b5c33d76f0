import RubyRuntime.Thread.Parking
import RubyRuntime.Thread.Signal

/-!
# Wake-ups of a sleeping thread

A thread goes to sleep any number of times, and any number of senders want it up; their accesses to
its record interleave in any order. The main result is that no wake-up is lost: as long as a thread
lies parked although its wake-up or its interrupt flag is raised, somebody who raised the flag has
still to notify it.
-/
namespace RubyRuntime

variable {α : Type}

/-- What a sender wants of a thread: that it runs an action, that it ends its sleep, or just that it
looks up. -/
inductive Summons (α : Type) where
  | submit (action : α)
  | wakeUp
  | interrupt

def Summons.signal : Summons α → Signal α
  | submit action => .submitting action
  | wakeUp => .waking
  | interrupt => .interrupting

structure Sender (α : Type) where
  summons : Summons α
  place : Signal α

namespace Sender

def owesWakeUp (sender : Sender α) : Bool :=
  match sender.summons, sender.place with
  | .wakeUp, .interrupting | .wakeUp, .entering | .wakeUp, .notifying => true
  | _, _ => false

def owesInterrupt (sender : Sender α) : Bool :=
  match sender.place with
  | .entering | .notifying => true
  | _ => false

end Sender

/-- A thread, where its sleep has got to, and all that have sent for it. A thread that is awake has
finished its last sleep. -/
structure Slumber (α : Type) where
  clock : Nat := 0
  deadline : Option Nat := none
  parking : Parking := .finished false
  thread : ThreadRecord α
  senders : List (Sender α) := []

/-- What can happen next. Flags may also be consumed, and actions taken, outside of a sleep. -/
inductive SlumberMove (α : Type) where
  | tick (millis : Nat)
  | lieDown (deadline : Option Nat)
  | sleeper
  | summon (summons : Summons α)
  | sender (i : Nat)
  | dropWakeUp
  | dropInterrupt
  | popAction

namespace Slumber

def start (name : Option String) : Slumber α :=
  { thread := { name } }

def move (s : Slumber α) : SlumberMove α → Slumber α
  | .tick millis => { s with clock := s.clock + millis }
  | .lieDown deadline =>
    match s.parking with
    | .finished _ => { s with deadline, parking := .entering }
    | _ => s
  | .sleeper =>
    let (parking, thread) := s.parking.step s.clock s.deadline s.thread
    { s with parking, thread }
  | .summon summons => { s with senders := s.senders ++ [⟨summons, summons.signal⟩] }
  | .sender i =>
    match s.senders[i]? with
    | some sender =>
      let (place, thread) := sender.place.step s.thread
      { s with thread, senders := s.senders.set i { sender with place } }
    | none => s
  | .dropWakeUp => { s with thread := s.thread.dropWakeUp }
  | .dropInterrupt => { s with thread := s.thread.dropInterrupt }
  | .popAction => { s with thread := s.thread.popAction.2 }

def follow (s : Slumber α) (moves : List (SlumberMove α)) : Slumber α :=
  moves.foldl move s

def isParked (s : Slumber α) : Bool :=
  match s.parking with
  | .parked seen => s.thread.parker.notices == seen
  | _ => false

end Slumber

def Parking.isInside : Parking → Bool
  | .checkingWakeUp | .checkingInterrupt | .checkingDeadline | .leaving _ => true
  | _ => false

def Signal.isInside : Signal α → Bool
  | .notifying | .leaving => true
  | _ => false

/-- Whether the thread has looked for a wake-up and will not do so again before a notification or
its deadline. -/
def Parking.isPastWakeUp (notices : Nat) : Parking → Bool
  | .checkingInterrupt | .checkingDeadline => true
  | .parked seen => notices == seen
  | _ => false

def Parking.isPastInterrupt (notices : Nat) : Parking → Bool
  | .checkingDeadline => true
  | .parked seen => notices == seen
  | _ => false

theorem Parking.isPastWakeUp_of_isPastInterrupt {notices : Nat} {parking : Parking}
    (h : parking.isPastInterrupt notices) : parking.isPastWakeUp notices := by
  cases parking <;> first | exact h | cases h

section Sleeper

variable {now : Nat} {deadline : Option Nat} {parking : Parking} {thread : ThreadRecord α}

theorem Parking.busy_step (now : Nat) (deadline : Option Nat)
    (h : parking.isInside → thread.parker.busy) :
    (parking.step now deadline thread).1.isInside.toNat + thread.parker.busy.toNat =
      parking.isInside.toNat + (parking.step now deadline thread).2.parker.busy.toNat := by
  cases parking with
  | entering =>
      cases hbusy : thread.parker.busy <;> simp [step, hbusy, isInside, ThreadRecord.setBusy]
  | checkingWakeUp =>
      cases hwake : thread.wakeUp <;> simp [step, hwake, isInside, ThreadRecord.dropWakeUp]
  | checkingInterrupt =>
      cases hinterrupted : thread.interrupted <;>
        simp [step, hinterrupted, isInside, ThreadRecord.dropInterrupt]
  | checkingDeadline =>
      have hbusy := h rfl
      cases hlate : isLate now deadline <;>
        simp [step, hlate, isInside, ThreadRecord.setBusy, hbusy]
  | parked seen =>
      cases hbusy : thread.parker.busy <;> cases hroused : isRoused now deadline seen thread <;>
        simp [step, hroused, hbusy, isInside, ThreadRecord.setBusy]
  | leaving interrupted =>
      have hbusy := h rfl
      simp [step, isInside, ThreadRecord.setBusy, hbusy]
  | finished interrupted => simp [step, isInside]

theorem Parking.notices_step :
    (parking.step now deadline thread).2.parker.notices = thread.parker.notices := by
  cases parking <;> simp only [step] <;> try split
  all_goals rfl

theorem Parking.seen_le_of_step {seen : Nat}
    (h : ∀ seen, parking = .parked seen → seen ≤ thread.parker.notices)
    (hparked : (parking.step now deadline thread).1 = .parked seen) :
    seen ≤ thread.parker.notices := by
  cases parking with
  | parked old =>
      simp only [step] at hparked
      split at hparked
      · cases hparked
      · exact h seen hparked
  | checkingDeadline =>
      simp only [step] at hparked
      split at hparked <;> cases hparked
      exact Nat.le_refl _
  | entering | checkingWakeUp | checkingInterrupt =>
      simp only [step] at hparked
      split at hparked <;> cases hparked
  | leaving | finished => cases hparked

/-- A thread comes to be past its look for a wake-up only if it found none. -/
theorem Parking.wakeUp_of_step (hwake : (parking.step now deadline thread).2.wakeUp)
    (hpast : (parking.step now deadline thread).1.isPastWakeUp thread.parker.notices) :
    thread.wakeUp ∧ parking.isPastWakeUp thread.parker.notices := by
  cases parking with
  | entering =>
      simp only [step] at hpast
      split at hpast <;> cases hpast
  | checkingWakeUp =>
      cases hflag : thread.wakeUp with
      | true => simp [step, hflag, isPastWakeUp] at hpast
      | false => simp [step, hflag] at hwake
  | checkingInterrupt =>
      cases hflag : thread.interrupted with
      | true => simp [step, hflag, isPastWakeUp] at hpast
      | false => exact ⟨by simpa [step, hflag] using hwake, rfl⟩
  | checkingDeadline =>
      cases hlate : isLate now deadline with
      | true => simp [step, hlate, isPastWakeUp] at hpast
      | false => exact ⟨by simpa [step, hlate, ThreadRecord.setBusy] using hwake, rfl⟩
  | parked seen =>
      simp only [step] at hwake hpast
      split at hpast
      · cases hpast
      · next hasleep =>
        rw [if_neg hasleep] at hwake
        exact ⟨hwake, hpast⟩
  | leaving | finished => cases hpast

theorem Parking.interrupted_of_step
    (hinterrupted : (parking.step now deadline thread).2.interrupted)
    (hpast : (parking.step now deadline thread).1.isPastInterrupt thread.parker.notices) :
    thread.interrupted ∧ parking.isPastInterrupt thread.parker.notices := by
  cases parking with
  | entering | checkingWakeUp =>
      simp only [step] at hpast
      split at hpast <;> cases hpast
  | checkingInterrupt =>
      cases hflag : thread.interrupted with
      | true => simp [step, hflag, isPastInterrupt] at hpast
      | false => simp [step, hflag] at hinterrupted
  | checkingDeadline =>
      cases hlate : isLate now deadline with
      | true => simp [step, hlate, isPastInterrupt] at hpast
      | false => exact ⟨by simpa [step, hlate, ThreadRecord.setBusy] using hinterrupted, rfl⟩
  | parked seen =>
      simp only [step] at hinterrupted hpast
      split at hpast
      · cases hpast
      · next hasleep =>
        rw [if_neg hasleep] at hinterrupted
        exact ⟨hinterrupted, hpast⟩
  | leaving | finished => cases hpast

end Sleeper

section Sender

variable {signal : Signal α} {sender : Sender α} {thread : ThreadRecord α}

theorem Signal.busy_step (h : signal.isInside → thread.parker.busy) :
    (signal.step thread).1.isInside.toNat + thread.parker.busy.toNat =
      signal.isInside.toNat + (signal.step thread).2.parker.busy.toNat := by
  cases signal with
  | entering =>
      cases hbusy : thread.parker.busy <;> simp [step, hbusy, isInside, ThreadRecord.setBusy]
  | leaving =>
      have hbusy := h rfl
      simp [step, isInside, ThreadRecord.setBusy, hbusy]
  | notifying =>
      have hbusy := h rfl
      simp [step, isInside, ThreadRecord.notify, hbusy]
  | _ => simp [step, isInside, ThreadRecord.pushAction, ThreadRecord.markPending,
      ThreadRecord.requestWakeUp, ThreadRecord.interrupt]

theorem Signal.notices_step (h : signal ≠ .notifying) :
    (signal.step thread).2.parker.notices = thread.parker.notices := by
  cases signal with
  | notifying => exact absurd rfl h
  | entering =>
      simp only [step]
      split <;> rfl
  | _ => rfl

theorem Signal.le_notices_step :
    thread.parker.notices ≤ (signal.step thread).2.parker.notices := by
  by_cases h : signal = .notifying
  · rw [h]
    exact Nat.le_succ _
  · exact Nat.le_of_eq (notices_step h).symm

theorem Signal.wakeUp_of_step (h : (signal.step thread).2.wakeUp) :
    thread.wakeUp ∨ signal = .waking := by
  cases signal with
  | waking => exact .inr rfl
  | entering =>
      simp only [step] at h
      split at h <;> exact .inl h
  | _ => exact .inl h

theorem Signal.interrupted_of_step (h : (signal.step thread).2.interrupted) :
    thread.interrupted ∨ signal = .interrupting := by
  cases signal with
  | interrupting => exact .inr rfl
  | entering =>
      simp only [step] at h
      split at h <;> exact .inl h
  | _ => exact .inl h

namespace Sender

def advance (thread : ThreadRecord α) (sender : Sender α) : Sender α :=
  { sender with place := (sender.place.step thread).1 }

theorem owesWakeUp_advance (h : sender.owesWakeUp) (hplace : sender.place ≠ .notifying) :
    (sender.advance thread).owesWakeUp := by
  obtain ⟨summons, place⟩ := sender
  cases summons <;> cases place <;> try cases h
  · rfl
  · simp only [advance, Signal.step]
    split <;> rfl
  · exact absurd rfl hplace

theorem owesInterrupt_advance (h : sender.owesInterrupt) (hplace : sender.place ≠ .notifying) :
    (sender.advance thread).owesInterrupt := by
  obtain ⟨summons, place⟩ := sender
  cases place <;> try cases h
  · simp only [advance, Signal.step]
    split <;> rfl
  · exact absurd rfl hplace

theorem ne_waking_advance : (sender.advance thread).place ≠ .waking := by
  obtain ⟨summons, place⟩ := sender
  intro h
  cases place with
  | entering =>
      simp only [advance, Signal.step] at h
      split at h <;> cases h
  | _ => cases h

end Sender

end Sender

private theorem exists_mem_set {β : Type} {p : β → Prop} {l : List β} {i : Nat} {a b : β}
    (hi : l[i]? = some a) (hab : p a → p b) (h : ∃ x ∈ l, p x) : ∃ x ∈ l.set i b, p x := by
  obtain ⟨x, hx, hp⟩ := h
  obtain ⟨j, hj⟩ := List.getElem?_of_mem hx
  by_cases hij : i = j
  · subst hij
    cases hi.symm.trans hj
    exact ⟨b, List.mem_set (List.getElem?_eq_some_iff.mp hi).1 b, hab hp⟩
  · exact ⟨x, List.mem_of_getElem? ((List.getElem?_set_ne hij).trans hj), hp⟩

private theorem countP_set_add {β : Type} (p : β → Bool) {l : List β} {i : Nat} {a : β} (b : β)
    (hi : l[i]? = some a) : (l.set i b).countP p + (p a).toNat = l.countP p + (p b).toNat := by
  obtain ⟨hlength, rfl⟩ := List.getElem?_eq_some_iff.mp hi
  have hle := List.boole_getElem_le_countP (p := p) hlength
  have htoNat : ∀ c : Bool, (if c then 1 else 0) = c.toNat := by decide
  rw [List.countP_set hlength]
  simp only [htoNat] at hle ⊢
  omega

namespace Slumber

variable {s : Slumber α}

/-- The lock of the parker is taken exactly if one of the thread and its senders is inside, and a
flag that the thread does not look at any more is up only as long as a sender owes it a
notification. -/
structure Attended (s : Slumber α) : Prop where
  exclusive : s.parking.isInside.toNat + s.senders.countP (·.place.isInside) =
    s.thread.parker.busy.toNat
  seen_le : ∀ seen, s.parking = .parked seen → seen ≤ s.thread.parker.notices
  summons_eq : ∀ sender ∈ s.senders, sender.place = .waking → sender.summons = .wakeUp
  wakeUp : s.thread.wakeUp → s.parking.isPastWakeUp s.thread.parker.notices →
    ∃ sender ∈ s.senders, sender.owesWakeUp
  interrupted : s.thread.interrupted → s.parking.isPastInterrupt s.thread.parker.notices →
    ∃ sender ∈ s.senders, sender.owesInterrupt

namespace Attended

theorem start (name : Option String) : (Slumber.start name : Slumber α).Attended where
  exclusive := rfl
  seen_le := fun _ h => by cases h
  summons_eq := fun _ h => by cases h
  wakeUp := fun h => by cases h
  interrupted := fun h => by cases h

theorem changeThread (h : s.Attended) {thread : ThreadRecord α}
    (hparker : thread.parker = s.thread.parker) (hwake : thread.wakeUp → s.thread.wakeUp)
    (hinterrupted : thread.interrupted → s.thread.interrupted) :
    { s with thread }.Attended where
  exclusive := by rw [hparker]; exact h.exclusive
  seen_le := by rw [hparker]; exact h.seen_le
  summons_eq := h.summons_eq
  wakeUp := by
    rw [hparker]
    exact fun hflag => h.wakeUp (hwake hflag)
  interrupted := by
    rw [hparker]
    exact fun hflag => h.interrupted (hinterrupted hflag)

theorem busy_of_pos (h : s.Attended)
    (hpos : 0 < s.parking.isInside.toNat + s.senders.countP (·.place.isInside)) :
    s.thread.parker.busy := by
  rw [h.exclusive] at hpos
  cases hbusy : s.thread.parker.busy with
  | true => rfl
  | false => simp [hbusy] at hpos

theorem lieDown (h : s.Attended) (deadline : Option Nat) :
    (s.move (.lieDown deadline)).Attended := by
  cases hparking : s.parking with
  | finished interrupted =>
      have hexclusive := h.exclusive
      simp only [move, hparking, Parking.isInside] at hexclusive ⊢
      exact ⟨hexclusive, fun _ h => (by cases h), h.summons_eq, fun _ h => (by cases h),
        fun _ h => (by cases h)⟩
  | _ =>
      simp only [move, hparking]
      exact h

theorem sleeper (h : s.Attended) : (s.move .sleeper).Attended where
  exclusive := by
    have hexclusive := h.exclusive
    have hbusy : s.parking.isInside → s.thread.parker.busy :=
      fun hinside => h.busy_of_pos (Nat.add_pos_left (by simp [hinside]) _)
    have hstep := Parking.busy_step s.clock s.deadline hbusy
    simp only [move]
    omega
  seen_le := by
    intro seen hparked
    simp only [move, Parking.notices_step]
    exact Parking.seen_le_of_step h.seen_le hparked
  summons_eq := h.summons_eq
  wakeUp := by
    intro hflag hpast
    simp only [move, Parking.notices_step] at hflag hpast
    obtain ⟨hflag, hpast⟩ := Parking.wakeUp_of_step hflag hpast
    exact h.wakeUp hflag hpast
  interrupted := by
    intro hflag hpast
    simp only [move, Parking.notices_step] at hflag hpast
    obtain ⟨hflag, hpast⟩ := Parking.interrupted_of_step hflag hpast
    exact h.interrupted hflag hpast

theorem summon (h : s.Attended) (summons : Summons α) : (s.move (.summon summons)).Attended where
  exclusive := by
    have houtside : summons.signal.isInside = false := by cases summons <;> rfl
    simp only [move, List.countP_append, List.countP_singleton, houtside]
    exact h.exclusive
  seen_le := h.seen_le
  summons_eq := by
    intro sender hmem hplace
    rcases List.mem_append.mp hmem with hold | hnew
    · exact h.summons_eq sender hold hplace
    · rw [List.mem_singleton.mp hnew] at hplace ⊢
      cases summons <;> first | rfl | cases hplace
  wakeUp := by
    intro hflag hpast
    obtain ⟨sender, hmem, howes⟩ := h.wakeUp hflag hpast
    exact ⟨sender, List.mem_append_left _ hmem, howes⟩
  interrupted := by
    intro hflag hpast
    obtain ⟨sender, hmem, howes⟩ := h.interrupted hflag hpast
    exact ⟨sender, List.mem_append_left _ hmem, howes⟩

theorem not_past_of_notifying (h : s.Attended) {sender : Sender α} (hmem : sender ∈ s.senders)
    (hplace : sender.place = .notifying) :
    s.parking.isPastWakeUp (s.thread.parker.notices + 1) = false := by
  have hinside : 1 ≤ s.senders.countP (·.place.isInside) :=
    List.one_le_countP_iff.mpr ⟨sender, hmem, by rw [hplace]; rfl⟩
  have hexclusive := h.exclusive
  have hone : s.thread.parker.busy.toNat ≤ 1 := Bool.toNat_le _
  cases hparking : s.parking with
  | checkingInterrupt | checkingDeadline =>
      rw [hparking] at hexclusive
      simp only [Parking.isInside, Bool.toNat_true] at hexclusive
      omega
  | parked seen =>
      have hle := h.seen_le seen hparking
      rw [Parking.isPastWakeUp, beq_eq_false_iff_ne]
      omega
  | _ => rfl

theorem sender (h : s.Attended) (i : Nat) : (s.move (.sender i)).Attended := by
  cases hi : s.senders[i]? with
  | none =>
      simp only [move, hi]
      exact h
  | some sender =>
      have hmem := List.mem_of_getElem? hi
      have hmove : s.move (.sender i) =
          { s with
            thread := (sender.place.step s.thread).2
            senders := s.senders.set i (sender.advance s.thread) } := by
        simp only [move, hi]
        rfl
      -- Where the thread is past its look for a flag, this step does not notify.
      have hquiet : s.parking.isPastWakeUp (sender.place.step s.thread).2.parker.notices →
          sender.place ≠ .notifying := by
        intro hpast hplace
        have hnone := h.not_past_of_notifying hmem hplace
        rw [hplace] at hpast
        exact Bool.eq_false_iff.mp hnone hpast
      rw [hmove]
      refine ⟨?_, ?_, ?_, ?_, ?_⟩
      · have hexclusive := h.exclusive
        have hcount := countP_set_add (fun sender : Sender α => sender.place.isInside)
          (sender.advance s.thread) hi
        have hbusy : sender.place.isInside → s.thread.parker.busy := by
          intro hinside
          have hpos : 0 < s.senders.countP (·.place.isInside) :=
            List.countP_pos_iff.mpr ⟨sender, hmem, hinside⟩
          exact h.busy_of_pos (Nat.add_pos_right _ hpos)
        have hstep := Signal.busy_step hbusy
        simp only [Sender.advance] at hcount ⊢
        omega
      · intro seen hparked
        exact Nat.le_trans (h.seen_le seen hparked) Signal.le_notices_step
      · intro other hother hplace
        rcases List.mem_or_eq_of_mem_set hother with hold | rfl
        · exact h.summons_eq other hold hplace
        · exact absurd hplace Sender.ne_waking_advance
      · intro hflag hpast
        have hplace := hquiet hpast
        -- Either the flag was up and somebody owes, or this sender raises it and owes from now on.
        rcases Signal.wakeUp_of_step hflag with hold | hwaking
        · rw [Signal.notices_step hplace] at hpast
          exact exists_mem_set hi (fun howes => Sender.owesWakeUp_advance howes hplace)
            (h.wakeUp hold hpast)
        · refine ⟨_, List.mem_set (List.getElem?_eq_some_iff.mp hi).1 _, ?_⟩
          simp [Sender.advance, hwaking, Signal.step, Sender.owesWakeUp,
            h.summons_eq sender hmem hwaking]
      · intro hflag hpast
        have hplace := hquiet (Parking.isPastWakeUp_of_isPastInterrupt hpast)
        rcases Signal.interrupted_of_step hflag with hold | hinterrupting
        · rw [Signal.notices_step hplace] at hpast
          exact exists_mem_set hi (fun howes => Sender.owesInterrupt_advance howes hplace)
            (h.interrupted hold hpast)
        · refine ⟨_, List.mem_set (List.getElem?_eq_some_iff.mp hi).1 _, ?_⟩
          simp [Sender.advance, hinterrupting, Signal.step, Sender.owesInterrupt]

theorem move (h : s.Attended) (move : SlumberMove α) : (s.move move).Attended := by
  cases move with
  | tick millis => exact ⟨h.exclusive, h.seen_le, h.summons_eq, h.wakeUp, h.interrupted⟩
  | lieDown deadline => exact h.lieDown deadline
  | sleeper => exact h.sleeper
  | summon summons => exact h.summon summons
  | sender i => exact h.sender i
  | dropWakeUp => exact h.changeThread rfl (fun hflag => by cases hflag) id
  | dropInterrupt => exact h.changeThread rfl id fun hflag => by cases hflag
  | popAction => exact h.changeThread rfl id id

theorem follow (h : s.Attended) (moves : List (SlumberMove α)) : (s.follow moves).Attended := by
  induction moves generalizing s with
  | nil => exact h
  | cons first rest ih => exact ih (h.move first)

end Attended

theorem isPast_of_isParked (h : s.isParked) :
    s.parking.isPastWakeUp s.thread.parker.notices ∧
      s.parking.isPastInterrupt s.thread.parker.notices := by
  unfold isParked at h
  split at h
  · next seen hparking =>
    rw [hparking]
    exact ⟨h, h⟩
  · cases h

/-- No wake-up is lost. However the accesses of a thread that goes to sleep, with or without a
deadline, and of those who send for it interleave: while it is parked and its wake-up flag is up,
somebody who wants it to wake up has raised the flag and has still to notify it, and while it is
parked and interrupted, somebody who has interrupted it has still to notify it. -/
theorem wakeups_never_lost (name : Option String) (moves : List (SlumberMove α)) :
    let s := (start name : Slumber α).follow moves
    s.isParked →
      (s.thread.wakeUp → ∃ sender ∈ s.senders, sender.owesWakeUp) ∧
        (s.thread.interrupted → ∃ sender ∈ s.senders, sender.owesInterrupt) := by
  intro s hparked
  have h : s.Attended := (Attended.start name).follow moves
  obtain ⟨hwake, hinterrupt⟩ := isPast_of_isParked hparked
  exact ⟨fun hflag => h.wakeUp hflag hwake, fun hflag => h.interrupted hflag hinterrupt⟩

/-- A sleep is ended by an interrupt. In the next one, the thread has looked for a wake-up and for
an interrupt when a sender raises both flags and is shut out by the lock, and then parks. -/
def restlessNight : List (SlumberMove Unit) :=
  .summon .interrupt :: List.replicate 4 (.sender 0) ++
    .lieDown none :: List.replicate 4 .sleeper ++ .lieDown none :: List.replicate 3 .sleeper ++
    .summon .wakeUp :: List.replicate 3 (.sender 1) ++ [.sleeper]

theorem wakeups_never_lost_restlessNight :
    let s := (start none : Slumber Unit).follow restlessNight
    s.isParked ∧ s.thread.wakeUp ∧ s.thread.interrupted ∧
      (∃ sender ∈ s.senders, sender.owesWakeUp) ∧ ∃ sender ∈ s.senders, sender.owesInterrupt := by
  intro s
  have hparked : s.isParked := by decide
  have hwake : s.thread.wakeUp := by decide
  have hinterrupted : s.thread.interrupted := by decide
  obtain ⟨howesWakeUp, howesInterrupt⟩ := wakeups_never_lost none restlessNight hparked
  exact ⟨hparked, hwake, hinterrupted, howesWakeUp hwake, howesInterrupt hinterrupted⟩

end Slumber

end RubyRuntime
