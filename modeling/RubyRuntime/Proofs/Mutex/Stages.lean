import RubyRuntime.Proofs.Session.Marks

/-!
# The stages of a pause

A condition wait and a sleep with a mutex release the mutex, pause, and take the mutex again.
`Stage` lists how far such a call can have got, with the frames that it has on its stack and the
errors that it has met. Each lemma below takes the call from one stage to the next. Those in which
safepoint actions run say nothing about the lock, so an action may do with it whatever it likes.
-/
namespace RubyRuntime

namespace Sync

variable {α : Type} {s s' : Sync α}

structure Holds (t : ThreadId) (l : LockId) (holds : UInt32) (s : Sync α) : Prop where
  owner : (s.lock l).owner = some t
  holds : (s.lock l).holds = holds
  listed : l ∈ (s.thread t).ownedLocks

structure Keeps (t : ThreadId) (l : LockId) (s s' : Sync α) : Prop where
  owner : (s.lock l).owner = some t → (s'.lock l).owner = some t
  holds : (s.lock l).owner = some t → (s'.lock l).holds = (s.lock l).holds
  owned : (s'.thread t).ownedLocks = (s.thread t).ownedLocks

theorem Holds.keep {t : ThreadId} {l : LockId} {holds : UInt32} (h : s.Holds t l holds)
    (hkeeps : s.Keeps t l s') : s'.Holds t l holds where
  owner := hkeeps.owner h.owner
  holds := (hkeeps.holds h.owner).trans h.holds
  listed := hkeeps.owned ▸ h.listed

end Sync

namespace Session

def Outcome.result? : Outcome → Option (Option Error)
  | .ok _ => some none
  | .error (.error e) => some (some e)
  | .error _ => none

theorem Outcome.cases (outcome : Outcome) :
    (∃ y, outcome = .ok y) ∨ (∃ e, outcome = .error (.error e)) ∨
      ∃ failure, outcome = .error failure ∧ ∀ e, failure ≠ .error e := by
  cases outcome with
  | ok y => exact .inl ⟨y, rfl⟩
  | error failure =>
      cases failure with
      | error e => exact .inr (.inl ⟨e, rfl⟩)
      | _ => exact .inr (.inr ⟨_, rfl, by simp⟩)

/-- The errors that a call meets: the one that ends its pause, and those that safepoint actions
raise while it takes the mutex again, in order. -/
structure Errors where
  ended : Option Error := none
  raised : List Error := []

def Errors.note (control : Control) (frames : List Frame) (errors : Errors) : Errors :=
  match control, frames with
  | .give (.error (.error e)), [.waitPolled _ _] | .give (.error (.error e)), [.sleeping _ _] =>
    { errors with ended := some e }
  | .give (.error (.error e)), [.polled (.acquire _ _), .relocking _ _ _ _, .waitOver _]
  | .give (.error (.error e)), [.polled (.acquire _ _), .relocking _ _ _ _, .sleepOver _] =>
    { errors with raised := errors.raised ++ [e] }
  | _, _ => errors

def errorOf? {α : Type} : Except Error α → Option Error
  | .error e => some e
  | .ok _ => none

def Frame.kept? : Frame → Option (Option Error)
  | .waitOver result => some (errorOf? result)
  | .sleepOver result => some (errorOf? result)
  | _ => none

def Frame.isBrittle : Frame → Bool
  | .blocking _ _ | .polled _ | .relocking _ _ _ _ | .waitPolled _ _ | .waitOver _ | .timing _
  | .sleeping _ _ | .sleepOver _ => true
  | _ => false

/-- What a wait knows in a phase: the holds that it is to restore, which the lock has until it is
released, and the error that has ended it. -/
def WaitKnows (t : ThreadId) (holds : UInt32) (lock : Lock) (errors : Errors) : WaitPhase → Prop
  | .entering | .releasing => lock.owner = some t ∧ lock.holds = holds ∧ errors = {}
  | .registering n | .checking n | .parked n _ | .awake n | .polling n => n = holds ∧ errors = {}
  | .returning n failure => n = holds ∧ errors = { ended := failure }
  | .leaving n result | .relocking n result => n = holds ∧ errors = { ended := errorOf? result }

/-- The frames of a call while safepoint actions run above them. -/
inductive Suspended (t : ThreadId) (l : LockId) (holds : UInt32) :
    Errors → Frame → List Frame → Prop where
  | wait {wait : ConditionWait} (hthread : wait.thread = t) (hlock : wait.lock = l) :
    Suspended t l holds {} (.waitPolled wait holds) []
  | sleep (start : Nat) (hone : holds = 1) : Suspended t l holds {} (.timing start) [.sleeping t l]
  | relock {errors : Errors} {last : Frame} (hlast : last.kept? = some errors.ended) :
    Suspended t l holds errors (.polled (.acquire t l))
      [.relocking t l holds errors.raised.head?, last]

theorem Frame.isBrittle_of_kept? {last : Frame} {kept : Option Error} (h : last.kept? = some kept) :
    last.isBrittle := by
  cases last <;> first | rfl | cases h

theorem Suspended.ne_step {t : ThreadId} {l : LockId} {holds : UInt32} {errors : Errors}
    {mark : Frame} {rest : List Frame} (h : Suspended t l holds errors mark rest) :
    ∀ f ∈ mark :: rest, ∀ running, f ≠ .step running := by
  rintro _ hf running rfl
  cases h with
  | wait hthread hlock => simp at hf
  | sleep start hone => simp at hf
  | @relock errors last hlast =>
      have hstep : Frame.step running = last := by simpa using hf
      rw [← hstep] at hlast
      cases hlast

theorem Suspended.isBrittle {t : ThreadId} {l : LockId} {holds : UInt32} {errors : Errors}
    {mark : Frame} {rest : List Frame} (h : Suspended t l holds errors mark rest) :
    mark.isBrittle ∧ ∀ f ∈ rest, f.isBrittle := by
  cases h with
  | wait hthread hlock => simp [Frame.isBrittle]
  | sleep start hone => simp [Frame.isBrittle]
  | relock hlast =>
      refine ⟨rfl, List.forall_mem_cons.mpr ⟨rfl, List.forall_mem_cons.mpr ⟨?_, by simp⟩⟩⟩
      exact Frame.isBrittle_of_kept? hlast

/-- How far a call has got that is to return with `holds` holds of the lock `l` for the thread `t`:
the errors that it has met, what it is doing, and its frames. -/
inductive Stage (t : ThreadId) (l : LockId) (holds : UInt32) (s : Sync Action) :
    Errors → Control → List Frame → Prop where
  | waiting {errors : Errors} {wait : ConditionWait} {phase : WaitPhase} {wakeAt : Option Nat}
    (hthread : wait.thread = t) (hlock : wait.lock = l)
    (hknows : WaitKnows t holds (s.lock l) errors phase) :
    Stage t l holds s errors (.condition wait phase wakeAt) []
  | releasing {timeout : Timeout} (howner : (s.lock l).owner = some t) (hone : holds = 1) :
    Stage t l holds s {} (.releasing t l) [.lyingDown t l timeout]
  | released {y : Yield} {timeout : Timeout} (hone : holds = 1) :
    Stage t l holds s {} (.give (.ok y)) [.lyingDown t l timeout]
  | suspended {errors : Errors} {control : Control} {above : List Frame} {mark : Frame}
    {rest : List Frame} (h : Suspended t l holds errors mark rest)
    (habove : ∀ f ∈ above, f.isInner) : Stage t l holds s errors control (above ++ mark :: rest)
  | slept {outcome : Outcome} (hone : holds = 1)
    (houtcome : (∃ millis, outcome = .ok (.elapsed millis)) ∨ ∃ e, outcome = .error (.error e)) :
    Stage t l holds s {} (.give outcome) [.sleeping t l]
  | retaking {errors : Errors} {control : Control} {previous : Status} {last : Frame}
    (hcontrol : control = .attempt (.acquire t l) ∨
      (∃ ticket wakeAt, control = .parked (.acquire t l) ticket wakeAt) ∨
      control = .interrupted (.acquire t l))
    (hlast : last.kept? = some errors.ended) :
    Stage t l holds s errors control
      [.blocking (.acquire t l) previous, .relocking t l holds errors.raised.head?, last]
  | failing {errors : Errors} {e : Error} {pending : Option Error} {last : Frame}
    (hpending : errors.raised.head? = pending.or (some e))
    (hlast : last.kept? = some errors.ended) :
    Stage t l holds s errors (.give (.error (.error e))) [.relocking t l holds pending, last]
  | awake {errors : Errors} {y : Yield} {previous : Status} {last : Frame}
    (howner : (s.lock l).owner = some t) (hlast : last.kept? = some errors.ended) :
    Stage t l holds s errors (.give (.ok y))
      [.blocking (.acquire t l) previous, .relocking t l holds errors.raised.head?, last]
  | taken {errors : Errors} {y : Yield} {last : Frame} (howner : (s.lock l).owner = some t)
    (hlast : last.kept? = some errors.ended) :
    Stage t l holds s errors (.give (.ok y)) [.relocking t l holds errors.raised.head?, last]
  | recorded {errors : Errors} {outcome : Outcome} {last : Frame} (hholds : s.Holds t l holds)
    (hlast : last.kept? = some errors.ended)
    (houtcome : outcome.result? = some errors.raised.head?) :
    Stage t l holds s errors (.give outcome) [last]
  | returned {errors : Errors} {outcome : Outcome} (hholds : s.Holds t l holds)
    (houtcome : outcome.result? = some (errors.ended.or errors.raised.head?)) :
    Stage t l holds s errors (.give outcome) []
  | unwinding {errors : Errors} {failure : Failure} {frames : List Frame}
    (hfailure : ∀ e, failure ≠ .error e) (hframes : ∀ f ∈ frames, f.isBrittle) :
    Stage t l holds s errors (.give (.error failure)) frames

def Task.Within (t : ThreadId) (l : LockId) (holds : UInt32) (base : List Frame) (errors : Errors)
    (task : Task) : Prop :=
  ∃ frames below, task.stack = frames ++ below ∧ below.map Frame.shape = base.map Frame.shape ∧
    Stage t l holds task.world.sync errors task.control frames

/-- What others leave to the thread is enough for the call to stay in its stage. -/
theorem Stage.keep {t : ThreadId} {l : LockId} {holds : UInt32} {s s' : Sync Action}
    {errors : Errors} {control : Control} {frames : List Frame}
    (h : Stage t l holds s errors control frames) (hkeeps : s.Keeps t l s') :
    Stage t l holds s' errors control frames := by
  cases h with
  | @waiting _ wait phase wakeAt hthread hlock hknows =>
      refine .waiting hthread hlock ?_
      cases phase with
      | entering | releasing =>
          obtain ⟨howner, hholds, herrors⟩ := hknows
          exact ⟨hkeeps.owner howner, (hkeeps.holds howner).trans hholds, herrors⟩
      | _ => exact hknows
  | releasing howner hone => exact .releasing (hkeeps.owner howner) hone
  | released hone => exact .released hone
  | suspended h habove => exact .suspended h habove
  | slept hone houtcome => exact .slept hone houtcome
  | retaking hcontrol hlast => exact .retaking hcontrol hlast
  | failing hpending hlast => exact .failing hpending hlast
  | awake howner hlast => exact .awake (hkeeps.owner howner) hlast
  | taken howner hlast => exact .taken (hkeeps.owner howner) hlast
  | recorded hholds hlast houtcome => exact .recorded (hholds.keep hkeeps) hlast houtcome
  | returned hholds houtcome => exact .returned (hholds.keep hkeeps) houtcome
  | unwinding hfailure hframes => exact .unwinding hfailure hframes

section Stages

variable {t : ThreadId} {l : LockId} {holds : UInt32} {base below : List Frame} {errors : Errors}
  {last : Frame} (w : World)

theorem within_startBlocking (hbelow : below.map Frame.shape = base.map Frame.shape)
    (hlast : last.kept? = some errors.ended) :
    (w.startBlocking (.relocking t l holds errors.raised.head? :: last :: below)
      (.acquire t l)).Within t l holds base errors :=
  ⟨[_, _, _], below, rfl, hbelow, .retaking (.inl rfl) hlast⟩

theorem within_startRelock (hbelow : below.map Frame.shape = base.map Frame.shape)
    (hlast : last.kept? = some errors.ended) (hraised : errors.raised = []) :
    (w.startRelock (last :: below) t l holds).Within t l holds base errors := by
  have hnone : none = errors.raised.head? := by rw [hraised]; rfl
  rw [World.startRelock, World.startAcquire, hnone]
  split
  · next sync hacquire =>
    exact ⟨[_, _], below, rfl, hbelow, .taken (Sync.owner_of_acquire hacquire) hlast⟩
  · exact within_startBlocking w hbelow hlast
  · refine ⟨[last], below, rfl, hbelow, .unwinding (by simp) ?_⟩
    simpa using Frame.isBrittle_of_kept? hlast

theorem within_attempt {previous : Status} (ticket : Ticket)
    (hbelow : below.map Frame.shape = base.map Frame.shape)
    (hlast : last.kept? = some errors.ended) :
    (afterAttempt (.blocking (.acquire t l) previous ::
        .relocking t l holds errors.raised.head? :: last :: below)
      ((Wait.acquire t l).attempt ticket w).1
      ((Wait.acquire t l).attempt ticket w).2).Within t l holds base errors := by
  simp only [Wait.attempt]
  split
  · next sync hacquire =>
    exact ⟨[_, _, _], below, rfl, hbelow, .awake (Sync.owner_of_acquire hacquire) hlast⟩
  · unfold Wait.unlessInterrupted
    split
    · exact ⟨[_, _, _], below, rfl, hbelow, .retaking (.inr (.inr rfl)) hlast⟩
    · exact ⟨[_, _, _], below, rfl, hbelow, .retaking (.inr (.inl ⟨_, _, rfl⟩)) hlast⟩
  · refine ⟨[_, _, last], below, rfl, hbelow, .unwinding (by simp) ?_⟩
    simpa [Frame.isBrittle] using Frame.isBrittle_of_kept? hlast

theorem within_startPoll {mark : Frame} {rest : List Frame} (u : ThreadId)
    (hbelow : below.map Frame.shape = base.map Frame.shape)
    (h : Suspended t l holds errors mark rest) :
    (w.startPoll (mark :: rest ++ below) u).Within t l holds base errors := by
  obtain ⟨above, below', hstack, hbelow', habove⟩ :=
    (World.launched_startPoll w (mark :: rest ++ below) u).stands
  obtain ⟨below'', rfl, hbelow''⟩ := exists_below_of_shape hbelow' h.ne_step
  refine ⟨above ++ mark :: rest, below'', ?_, hbelow''.trans hbelow, .suspended h ?_⟩
  · rw [hstack, List.append_assoc]
  · exact fun f hf => Frame.isInner_of_isOrdinary (habove f hf)

theorem WaitKnows.of_steps {now me : Nat} {wait : ConditionWait} {phase : WaitPhase}
    {s : Sync Action} {after : WaitPhase × Sync Action} (hsteps : wait.Steps now me s phase after)
    (hthread : wait.thread = t) (hlock : wait.lock = l)
    (h : WaitKnows t holds (s.lock l) errors phase) :
    WaitKnows t holds (after.2.lock l) errors after.1 := by
  cases hsteps with
  | releases =>
      obtain ⟨howner, hholds, herrors⟩ := h
      refine ⟨?_, herrors⟩
      simp [hthread, hlock, Lock.holdCount, Lock.isHeldBy, howner, hholds]
  | takes hphase hconsume =>
      rcases hphase with rfl | rfl <;> obtain ⟨hholds, rfl⟩ := h <;> exact ⟨hholds, rfl⟩
  | wakes | expires =>
      obtain ⟨hholds, rfl⟩ := h
      exact ⟨hholds, rfl⟩
  | _ => exact h

theorem within_continueWait {wait : ConditionWait} {phase : WaitPhase} (me : Nat)
    (hbelow : below.map Frame.shape = base.map Frame.shape) (hthread : wait.thread = t)
    (hlock : wait.lock = l) (hknows : WaitKnows t holds (w.sync.lock l) errors phase) :
    (continueWait me wait phase w below).Within t l holds base errors := by
  cases phase with
  | polling n =>
      obtain ⟨rfl, rfl⟩ := hknows
      exact within_startPoll w wait.thread hbelow (.wait hthread hlock)
  | relocking n result =>
      obtain ⟨rfl, rfl⟩ := hknows
      rw [← hthread, ← hlock]
      exact within_startRelock w hbelow rfl rfl
  | _ =>
      exact ⟨[], below, rfl, hbelow, .waiting hthread hlock
        (hknows.of_steps (wait.steps w.clock me _ w.sync) hthread hlock)⟩

theorem within_release {timeout : Timeout}
    (hbelow : below.map Frame.shape = base.map Frame.shape) (hone : holds = 1)
    (howner : (w.sync.lock l).owner = some t) :
    (w.release (.lyingDown t l timeout :: below) t l).Within t l holds base {} := by
  obtain ⟨sync, hunlock⟩ : ∃ sync, w.sync.unlockInternal t l = .ok sync := by
    simp [Sync.unlockInternal, Lock.unlock, howner]
  rw [World.release, hunlock]
  exact ⟨[_], below, rfl, hbelow, .released hone⟩

theorem within_startSleep {timeout : Timeout}
    (hbelow : below.map Frame.shape = base.map Frame.shape) (hone : holds = 1) :
    (w.startSleep (.sleeping t l :: below) t timeout).Within t l holds base {} := by
  refine ⟨[_] ++ [_, _], below, rfl, hbelow, .suspended (.sleep w.clock hone) ?_⟩
  simp [Frame.isInner, Frame.isBottom]

theorem within_relocked (hbelow : below.map Frame.shape = base.map Frame.shape)
    (hpos : 0 < holds) (howner : (w.sync.lock l).owner = some t)
    (hlast : last.kept? = some errors.ended) :
    (w.relocked (last :: below) t l holds errors.raised.head?).Within t l holds base errors := by
  have hlock : ((w.sync.updateLock l (·.setHoldCount t holds)).lock l) =
      { w.sync.lock l with holds } := by
    simp [Sync.lock_updateLock, Lock.setHoldCount, Lock.isHeldBy, howner, hpos]
  have hrecord : (w.sync.updateLock l (·.setHoldCount t holds)).record? t l =
      some ((w.sync.updateLock l (·.setHoldCount t holds)).updateThread t (·.addOwned l)) := by
    simp [Sync.record?, Sync.isHeld, hlock, Lock.isHeldBy, howner]
  have hholds : Sync.Holds t l holds
      ((w.sync.updateLock l (·.setHoldCount t holds)).updateThread t (·.addOwned l)) := by
    refine ⟨?_, ?_, ?_⟩
    · rw [Sync.lock_updateThread, hlock]
      exact howner
    · rw [Sync.lock_updateThread, hlock]
    · rw [Sync.thread_updateThread, if_pos rfl, ThreadRecord.addOwned]
      split
      · assumption
      · simp
  simp only [World.relocked, World.recordAnd, World.updateSync, hrecord]
  refine ⟨[last], below, rfl, hbelow, .recorded hholds hlast ?_⟩
  cases errors.raised.head? <;> rfl

theorem Frame.receive_panic {frame : Frame} {failure : Failure} (stack : List Frame)
    (hframe : frame.isBrittle) (hfailure : ∀ e, failure ≠ .error e) :
    frame.receive w stack (.error failure) = ⟨w, .give (.error failure), stack⟩ := by
  cases failure with
  | error e => exact absurd rfl (hfailure e)
  | _ =>
      cases frame with
      | waitOver result | sleepOver result => cases result <;> rfl
      | _ => first | rfl | cases hframe

theorem within_receive_mark {mark : Frame} {rest : List Frame} {outcome : Outcome}
    (hbelow : below.map Frame.shape = base.map Frame.shape)
    (h : Suspended t l holds errors mark rest) :
    (mark.receive w (rest ++ below) outcome).Within t l holds base
      (errors.note (.give outcome) (mark :: rest)) := by
  rcases outcome.cases with ⟨y, rfl⟩ | ⟨e, rfl⟩ | ⟨failure, rfl, hfailure⟩
  · cases h with
    | wait hthread hlock => exact ⟨[], below, rfl, hbelow, .waiting hthread hlock ⟨rfl, rfl⟩⟩
    | sleep start hone => exact ⟨[_], below, rfl, hbelow, .slept hone (.inl ⟨_, rfl⟩)⟩
    | relock hlast => exact within_startBlocking w hbelow hlast
  · cases h with
    | wait hthread hlock => exact ⟨[], below, rfl, hbelow, .waiting hthread hlock ⟨rfl, rfl⟩⟩
    | sleep start hone => exact ⟨[_], below, rfl, hbelow, .slept hone (.inr ⟨_, rfl⟩)⟩
    | @relock errors last hlast =>
        have hnote : errors.note (.give (.error (.error e))) [.polled (.acquire t l),
            .relocking t l holds errors.raised.head?, last] =
            { errors with raised := errors.raised ++ [e] } := by
          cases last <;> first | rfl | cases hlast
        rw [hnote]
        exact ⟨[_, _], below, rfl, hbelow, .failing List.head?_append hlast⟩
  · rw [Frame.receive_panic w _ h.isBrittle.1 hfailure]
    exact ⟨rest, below, rfl, hbelow, .unwinding hfailure h.isBrittle.2⟩

theorem within_receive_sleeping {outcome : Outcome} (hone : holds = 1)
    (hbelow : below.map Frame.shape = base.map Frame.shape)
    (houtcome : (∃ millis, outcome = .ok (.elapsed millis)) ∨ ∃ e, outcome = .error (.error e)) :
    ((Frame.sleeping t l).receive w below outcome).Within t l holds base
      (Errors.note (.give outcome) [.sleeping t l] {}) := by
  rw [hone]
  rcases houtcome with ⟨millis, rfl⟩ | ⟨e, rfl⟩
  · exact within_startRelock w hbelow rfl rfl
  · exact within_startRelock w hbelow rfl rfl

theorem within_receive_over {outcome : Outcome} (hholds : w.sync.Holds t l holds)
    (hbelow : below.map Frame.shape = base.map Frame.shape)
    (hlast : last.kept? = some errors.ended)
    (houtcome : outcome.result? = some errors.raised.head?) :
    (last.receive w below outcome).Within t l holds base errors := by
  obtain ⟨result, hresult, hreceive⟩ : ∃ result : Outcome,
      result.result? = some (errors.ended.or errors.raised.head?) ∧
        last.receive w below outcome = ⟨w, .give result, below⟩ := by
    obtain ⟨ended, raised⟩ := errors
    simp only at hlast houtcome ⊢
    rcases outcome.cases with ⟨y, rfl⟩ | ⟨e, rfl⟩ | ⟨failure, rfl, hfailure⟩
    · rw [← Option.some.inj houtcome]
      cases last with
      | waitOver result | sleepOver result =>
          rw [← Option.some.inj hlast]
          cases result <;> exact ⟨_, rfl, rfl⟩
      | _ => cases hlast
    · rw [← Option.some.inj houtcome]
      cases last with
      | waitOver result | sleepOver result =>
          rw [← Option.some.inj hlast]
          cases result <;> exact ⟨_, rfl, rfl⟩
      | _ => cases hlast
    · cases failure with
      | error e => exact absurd rfl (hfailure e)
      | _ => cases houtcome
  rw [hreceive]
  exact ⟨[], below, rfl, hbelow, .returned hholds hresult⟩

theorem Errors.note_panic {failure : Failure} {frames : List Frame}
    (hfailure : ∀ e, failure ≠ .error e) :
    errors.note (.give (.error failure)) frames = errors := by
  cases failure with
  | error e => exact absurd rfl (hfailure e)
  | _ => rfl

theorem Errors.note_over {outcome : Outcome} (hlast : last.kept? = some errors.ended) :
    errors.note (.give outcome) [last] = errors := by
  rcases outcome.cases with ⟨y, rfl⟩ | ⟨e, rfl⟩ | ⟨failure, rfl, hfailure⟩
  · rfl
  · cases last <;> first | rfl | cases hlast
  · exact Errors.note_panic hfailure

theorem Suspended.note_eq {mark : Frame} {above rest : List Frame} {control : Control}
    (h : Suspended t l holds errors mark rest)
    (hbusy : ∀ outcome, control = .give outcome → above ≠ []) :
    errors.note control (above ++ mark :: rest) = errors := by
  cases above with
  | nil =>
      unfold Errors.note
      split <;> first | rfl | exact absurd rfl (hbusy _ rfl)
  | cons first above =>
      have hend := @List.getLast?_append Frame (first :: above) (mark :: rest)
      -- An error of the re-acquisition is raised above exactly three frames, the last of which
      -- keeps the error of the pause.
      have hother : ∀ {polled relocking last : Frame}, last.kept?.isSome →
          first :: above ++ mark :: rest ≠ [polled, relocking, last] := by
        intro polled relocking last hlast hframes
        cases h with
        | wait hthread hlock =>
            rw [hframes] at hend
            cases hend
            cases hlast
        | sleep start hone =>
            rw [hframes] at hend
            cases hend
            cases hlast
        | relock _ => simpa using congrArg List.length hframes
      unfold Errors.note
      split
      · next hframes => simp at hframes
      · next hframes => simp at hframes
      · next hframes => exact absurd hframes (hother rfl)
      · next hframes => exact absurd hframes (hother rfl)
      · rfl

end Stages

end Session

end RubyRuntime
