import RubyRuntime.Proofs.Session.Runs

/-!
# Stacks that take mutexes

Which frames can stand on which. A frame that waits for a lock stands on the frame that will record
it, and nothing else stands on a frame that is due to receive a lock. So whoever is given a result
on top of such a frame has just taken the lock.
-/
namespace RubyRuntime.Session

def Fits : List Frame → Prop
  | [] => True
  | frame :: rest =>
    (match frame.quest? with
      | some place => rest.head?.bind Frame.seat? = some place
      | none => rest.head?.bind Frame.due? = none) ∧ Fits rest

theorem Frame.due?_of_seat? {frame : Frame} {place : ThreadId × LockId}
    (h : frame.seat? = some place) : frame.due? = some place ∧ frame.quest? = none := by
  cases frame <;> cases h <;> exact ⟨rfl, rfl⟩

theorem due?_top_of_seat? {stack : List Frame} {place : ThreadId × LockId}
    (h : stack.head?.bind Frame.seat? = some place) :
    stack.head?.bind Frame.due? = some place := by
  cases stack with
  | nil => cases h
  | cons frame stack => exact (Frame.due?_of_seat? h).1

theorem Frame.due?_eq_none {frame : Frame} (hseat : frame.seat? = none)
    (hquest : frame.quest? = none) : frame.due? = none := by
  cases frame with
  | acquiring t l | relocking t l holds pending => cases hseat
  | blocking wait previous =>
      cases wait with
      | acquire t l => cases hquest
      | _ => rfl
  | _ => rfl

theorem Frame.places_of_isOrdinary {frame : Frame} (h : frame.isOrdinary) :
    frame.seat? = none ∧ frame.quest? = none ∧ frame.due? = none := by
  simp only [Frame.isOrdinary, Bool.and_eq_true, Option.isNone_iff_eq_none] at h
  exact ⟨h.1.2, h.2, Frame.due?_eq_none h.1.2 h.2⟩

theorem Frame.places_of_isBottom {frame : Frame} (h : frame.isBottom) :
    frame.quest? = none ∧ frame.due? = none := by
  cases frame <;> first | exact ⟨rfl, rfl⟩ | cases h

private theorem bind_head?_shape {β : Type} {p : Frame → Option β} (hp : ∀ f, p f.shape = p f)
    {stack stack' : List Frame} (h : stack.map Frame.shape = stack'.map Frame.shape) :
    stack.head?.bind p = stack'.head?.bind p := by
  cases stack with
  | nil =>
      cases stack' with
      | nil => rfl
      | cons => simp at h
  | cons frame stack =>
      cases stack' with
      | nil => simp at h
      | cons frame' stack' =>
          simp only [List.map_cons, List.cons.injEq] at h
          simp only [List.head?_cons, Option.bind_some]
          rw [← hp frame, h.1, hp frame']

namespace Fits

variable {stack stack' base : List Frame} {frame : Frame} {t : ThreadId} {l : LockId}

theorem of_shape (h : Fits stack) (hshape : stack'.map Frame.shape = stack.map Frame.shape) :
    Fits stack' := by
  induction stack' generalizing stack with
  | nil => trivial
  | cons frame' stack' ih =>
      cases stack with
      | nil => simp at hshape
      | cons frame stack =>
          simp only [List.map_cons, List.cons.injEq] at hshape
          have hquest : frame'.quest? = frame.quest? := by
            rw [← Frame.quest?_shape, hshape.1, Frame.quest?_shape]
          refine ⟨?_, ih h.2 hshape.2⟩
          rw [hquest, bind_head?_shape Frame.seat?_shape hshape.2,
            bind_head?_shape Frame.due?_shape hshape.2]
          exact h.1

theorem below (h : Fits (frame :: base)) (hquest : frame.quest? = none) :
    Fits base ∧ base.head?.bind Frame.due? = none := by
  refine ⟨h.2, ?_⟩
  have hfirst := h.1
  rw [hquest] at hfirst
  exact hfirst

theorem extend (h : Fits base) (hdue : base.head?.bind Frame.due? = none)
    (hstack : Extends Frame.isOrdinary stack base) :
    Fits stack ∧ stack.head?.bind Frame.due? = none := by
  obtain ⟨above, below, rfl, hbelow, habove⟩ := hstack
  induction above with
  | nil =>
      refine ⟨h.of_shape hbelow, ?_⟩
      rw [← hdue]
      exact bind_head?_shape Frame.due?_shape hbelow
  | cons frame above ih =>
      obtain ⟨hfits, htop⟩ := ih fun f hf => habove f (List.mem_cons_of_mem _ hf)
      obtain ⟨-, hquest, hdue'⟩ := Frame.places_of_isOrdinary (habove frame List.mem_cons_self)
      refine ⟨⟨?_, hfits⟩, by simpa using hdue'⟩
      rw [hquest]
      exact htop

theorem push_seat (h : Fits base) (hdue : base.head?.bind Frame.due? = none)
    (hseat : frame.seat? = some (t, l)) : Fits (frame :: base) := by
  refine ⟨?_, h⟩
  rw [(Frame.due?_of_seat? hseat).2]
  exact hdue

theorem push_quest (h : Fits base) (hseat : base.head?.bind Frame.seat? = some (t, l))
    (hquest : frame.quest? = some (t, l)) : Fits (frame :: base) := by
  refine ⟨?_, h⟩
  rw [hquest]
  exact hseat

end Fits

def Control.quest? : Control → Option (ThreadId × LockId)
  | .attempt wait | .parked wait _ _ | .interrupted wait => wait.quest?
  | _ => none

/-- The executor and its stack go together: it does nothing but try to take the lock or give an
outcome while the frame on top is due to receive a lock, and it does not try to take the lock `l` in
any other way. -/
structure Control.Fits (l : LockId) (control : Control) (stack : List Frame) : Prop where
  frames : Session.Fits stack
  plain : control.isTaking = false → stack.head?.bind Frame.due? = none
  quest : ∀ {t k}, control.quest? = some (t, k) →
    (∃ previous, stack.head? = some (.blocking (.acquire t k) previous)) ∨
      stack.head? = some (.showing .null) ∧ k ≠ l

theorem Control.quest?_of_isOrdinary {control : Control} (h : control.isOrdinary) :
    control.quest? = none := by
  cases control with
  | attempt wait | parked wait ticket wakeAt | interrupted wait =>
      cases wait <;> first | rfl | cases h
  | _ => rfl

/-- Anything fits on a stack that is not due to receive a lock, except trying to take one. -/
theorem Control.Fits.of_none {l : LockId} {control : Control} {stack : List Frame}
    (hstack : Session.Fits stack) (hdue : stack.head?.bind Frame.due? = none)
    (hquest : control.quest? = none) : control.Fits l stack :=
  ⟨hstack, fun _ => hdue, fun h => by rw [hquest] at h; cases h⟩

theorem Control.Fits.give {l : LockId} {outcome : Outcome} {stack : List Frame}
    (hstack : Session.Fits stack) : (Control.give outcome).Fits l stack :=
  ⟨hstack, fun h => (nomatch h), fun h => (nomatch h)⟩

theorem Control.Fits.block {l : LockId} {t : ThreadId} {k : LockId} {previous : Status}
    {base : List Frame} (hbase : Session.Fits base)
    (hseat : base.head?.bind Frame.seat? = some (t, k)) :
    (Control.attempt (.acquire t k)).Fits l (.blocking (.acquire t k) previous :: base) := by
  refine ⟨hbase.push_quest hseat rfl, fun h => (nomatch h), ?_⟩
  intro t' k' h
  cases h
  exact .inl ⟨previous, rfl⟩

variable {me : Nat} {w : World} {e : Executor} {task : Task} {l : LockId}

theorem Executor.Resumes.fits {base : List Frame} (h : e.Resumes base)
    (hfits : e.control.Fits l e.stack) :
    Session.Fits base ∧ base.head?.bind Frame.due? = none := by
  cases h with
  | whole hfree =>
      refine ⟨hfits.frames, ?_⟩
      rcases hfree with hempty | hplain
      · simp [hempty]
      · exact hfits.plain hplain
  | below hstack hframe hseat hquest =>
      have hframes := hfits.frames
      rw [hstack] at hframes
      exact hframes.below hquest

theorem Task.Launched.fits {base : List Frame} (h : task.Launched w base)
    (hbase : Session.Fits base) (hdue : base.head?.bind Frame.due? = none) :
    task.control.Fits l task.stack ∧ task.stack.head?.bind Frame.due? = none := by
  obtain ⟨hframes, htop⟩ := hbase.extend hdue h.stands
  exact ⟨.of_none hframes htop (Control.quest?_of_isOrdinary h.control), htop⟩

theorem Task.Begun.fits {base : List Frame} {actor : Option ThreadId}
    (h : task.Begun w base actor) (hbase : Session.Fits base)
    (hdue : base.head?.bind Frame.due? = none) : task.control.Fits l task.stack := by
  cases h with
  | launched h => exact (h.fits hbase hdue).1
  | seated y halike hacquire hseat hstands =>
      obtain ⟨hframes, htop⟩ := hbase.extend hdue hstands
      exact .give (hframes.push_seat htop hseat)
  | blocked halike hseat hstands =>
      obtain ⟨hframes, htop⟩ := hbase.extend hdue hstands
      exact .block (hframes.push_seat htop hseat) (by simpa using hseat)
  | releasing halike hheld hstands =>
      obtain ⟨hframes, htop⟩ := hbase.extend hdue hstands
      exact .of_none hframes htop rfl

theorem Control.Fits.polled {wait wait' : Wait} {previous : Status} {base : List Frame}
    (hfits : e.control.Fits l e.stack) (hcontrol : e.control = .interrupted wait)
    (hstack : e.stack = .blocking wait' previous :: base) :
    Session.Fits (.polled wait :: base) := by
  have hframes := hfits.frames
  rw [hstack] at hframes
  cases hwait : wait.quest? with
  | some place =>
      -- The frame on top has been waiting for that very lock.
      have hquest : e.control.quest? = some place := by
        rw [hcontrol]
        exact hwait
      rcases hfits.quest hquest with ⟨previous', htop⟩ | ⟨htop, -⟩
      · rw [hstack] at htop
        cases htop
        cases wait <;> cases hwait
        exact hframes
      · rw [hstack] at htop
        cases htop
  | none =>
      have hdue : (Frame.blocking wait' previous).due? = none := by
        have hplain := hfits.plain (by rw [hcontrol]; simp [Control.isTaking, hwait])
        rwa [hstack] at hplain
      have hquest : (Frame.blocking wait' previous).quest? = none := by
        cases wait' <;> first | rfl | cases hdue
      have hordinary : (Frame.polled wait).isOrdinary := by
        cases wait <;> first | rfl | cases hwait
      obtain ⟨hbase, htop⟩ := hframes.below hquest
      exact (hbase.extend htop ((Extends.refl base).push hordinary)).1

/-- A step that does not work on the bare lock keeps the executor and its stack together. -/
theorem Advance.fits (h : Advance me w e task) (hfits : e.control.Fits l e.stack)
    (hclean : e.tampered? w ≠ some l) : task.control.Fits l task.stack := by
  have hframes := hfits.frames
  cases h with
  | begins hbase h =>
      obtain ⟨hfits', hdue⟩ := hbase.fits hfits
      exact h.fits hfits' hdue
  | passes hcontrol hstack halike hresult =>
      rw [hstack] at hframes
      exact .give hframes.2
  | retries hcontrol hstack halike =>
      rw [hstack] at hframes
      exact .block hframes.2 hframes.1
  | perseveres hcontrol hstack halike =>
      rw [hstack] at hframes
      obtain ⟨hbase, hdue⟩ := hframes.below rfl
      exact .block (hbase.push_seat hdue rfl) rfl
  | takes hcontrol halike hacquire => exact .give hframes
  | @waits t k w' control hcontrol halike hnext =>
      have hquest : e.control.quest? = some (t, k) := by
        rcases hcontrol with hcontrol | ⟨ticket, wakeAt, hcontrol⟩ <;> rw [hcontrol] <;> rfl
      rcases hnext with rfl | ⟨ticket, wakeAt, rfl⟩ | ⟨failure, rfl⟩
      · refine ⟨hframes, fun h => (nomatch h), ?_⟩
        rintro _ _ ⟨⟩
        exact hfits.quest hquest
      · refine ⟨hframes, fun h => (nomatch h), ?_⟩
        rintro _ _ ⟨⟩
        exact hfits.quest hquest
      · exact .give hframes
  | @polls wait wait' previous base task hcontrol hstack h =>
      exact (h.fits (hfits.polled hcontrol hstack) rfl).1
  | refuses hcontrol hstack => exact .give hframes
  | records hcontrol hstack hseat hmoves hlisted howner =>
      rw [hstack] at hframes
      exact .give hframes.2
  | misses hcontrol hstack hseat hmoves hfree howner =>
      rw [hstack] at hframes
      exact .give hframes.2
  | releases hcontrol hunlock => exact .give hframes
  | fails hcontrol herror => exact .give hframes
  | continues hcontrol => exact .of_none hframes (hfits.plain (by rw [hcontrol]; rfl)) rfl
  | acts hcontrol hmoves howner hgive hstack =>
      rw [hgive]
      exact .give (hframes.extend (hfits.plain (by rw [hcontrol]; rfl)) hstack).1
  | awaits hcontrol =>
      have hplain := hfits.plain (by rw [hcontrol]; rfl)
      refine ⟨(hframes.extend hplain ((Extends.refl _).push rfl)).1, fun h => (nomatch h), ?_⟩
      rintro _ _ ⟨⟩
      refine .inr ⟨rfl, ?_⟩
      intro hk
      apply hclean
      simp [Executor.tampered?, hcontrol, Op.bare?, hk]
  | grants hcontrol hop hfree => exact .give hframes
  | ends hcontrol hstack hkind => exact .of_none trivial rfl rfl
  | @turns report failure bottom base task hcontrol hstack hbottom halike hnext hstack' =>
      have hquest : task.control.quest? = none := by
        rcases hnext with ⟨op, hnext⟩ | ⟨result, hnext⟩ <;> rw [hnext] <;> rfl
      rw [hstack] at hframes
      rcases hstack' with hempty | ⟨running, bottom', base', hbottom', hbase', hstack'⟩
      · rw [hempty]
        exact .of_none trivial rfl hquest
      · rw [hstack']
        refine .of_none ⟨?_, ?_, ?_⟩ rfl hquest
        · exact (Frame.places_of_isBottom hbottom').2
        · rw [(Frame.places_of_isBottom hbottom').1]
          rcases hbase' with rfl | rfl
          · exact (hframes.below (Frame.places_of_isBottom hbottom).1).2
          · rfl
        · rcases hbase' with rfl | rfl
          · exact hframes.2
          · trivial

end RubyRuntime.Session
