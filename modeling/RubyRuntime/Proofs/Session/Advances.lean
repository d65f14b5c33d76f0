import RubyRuntime.Proofs.Session.Beginnings

/-!
# What an executor does in one step

`Machine.Does` lists the steps of an executor by what it is doing, and `Advance` everything that one
step can come to, as far as locks, conditions and its stack are concerned. `Machine.step_cases` says
that every step of a machine is one of these, and that the other executors stay as they are but for
one that may have been spawned.
-/
namespace RubyRuntime.Session

namespace Machine

inductive Does (m : Machine) (me : Nat) (e : Executor) : Machine → Prop where
  | idles (hcontrol : (∃ what, e.control = .awaiting what) ∨
      (∃ target, e.control = .joining target) ∨ ∃ result, e.control = .finished result) :
    Does m me e m
  | performs {op : Op} (hcontrol : e.control = .perform op) : Does m me e (m.perform me e op)
  | attempts {wait : Wait} (hcontrol : e.control = .attempt wait) :
    Does m me e (m.put me e.current (afterAttempt (noteAttempt m.world wait e.stack)
      (wait.attempt m.world.drawTicket.1 m.world.drawTicket.2).1
      (wait.attempt m.world.drawTicket.1 m.world.drawTicket.2).2))
  | resumes {wait : Wait} {old : Ticket} {wakeAt : Option Nat}
    (hcontrol : e.control = .parked wait old wakeAt) :
    Does m me e (m.put me e.current (afterAttempt e.stack
      (wait.resume old m.world.drawTicket.1 m.world.drawTicket.2).1
      (wait.resume old m.world.drawTicket.1 m.world.drawTicket.2).2))
  | releases {t : ThreadId} {l : LockId} (hcontrol : e.control = .releasing t l) :
    Does m me e (m.put me e.current (m.world.release e.stack t l))
  | polls {wait wait' : Wait} {previous : Status} {base : List Frame}
    (hcontrol : e.control = .interrupted wait)
    (hstack : e.stack = .blocking wait' previous :: base) :
    Does m me e (m.put me e.current (World.startPoll
      (m.world.updateThread wait.thread fun thread => { thread with status := previous })
      (.polled wait :: base) wait.thread))
  | refuses {wait : Wait} (hcontrol : e.control = .interrupted wait)
    (hstack : ∀ wait previous base, e.stack ≠ .blocking wait previous :: base) :
    Does m me e (m.put me e.current (m.world.giveFailure e.stack .interrupted))
  | continues {wait : ConditionWait} {phase : WaitPhase} {wakeAt : Option Nat}
    (hcontrol : e.control = .condition wait phase wakeAt) :
    Does m me e (m.put me e.current (continueWait me wait phase m.world e.stack))
  | learns {report : Report}
    (hcontrol : (∃ what, e.control = .awaiting what) ∨ ∃ target, e.control = .joining target) :
    Does m me e (m.put me e.current (m.world.give e.stack (.report report)))
  | receives {outcome : Outcome} {frame : Frame} {base : List Frame}
    (hcontrol : e.control = .give outcome) (hstack : e.stack = frame :: base) :
    Does m me e (m.put me e.current (frame.receive m.world base outcome))
  | finishes {outcome : Outcome} (hcontrol : e.control = .give outcome) (hstack : e.stack = []) :
    Does m me e (m.put me e.current ⟨m.world, .finished .null, []⟩)
  | answers {report : Report} {failure : Option Error}
    (hcontrol : e.control = .answer report failure) :
    Does m me e
      (m.put me e.current (receiveAnswer m.watched m.held m.world e.stack report failure))

theorem does {m : Machine} {me : Nat} {e : Executor} (he : m.executors[me]? = some e) :
    m.Does me e (m.step me) := by
  simp only [step, he]
  split
  · next op hcontrol => exact .performs hcontrol
  · next wait hcontrol => exact .attempts hcontrol
  · next wait old wakeAt hcontrol => exact .resumes hcontrol
  · next t l hcontrol => exact .releases hcontrol
  · next wait hcontrol =>
    split
    · next hstack => exact .polls hcontrol hstack
    · next hstack => exact .refuses hcontrol hstack
  · next wait phase wakeAt hcontrol => exact .continues hcontrol
  · next what hcontrol =>
    split
    · exact .learns (.inl ⟨what, hcontrol⟩)
    · exact .idles (.inl ⟨what, hcontrol⟩)
  · next target hcontrol =>
    split
    · exact .learns (.inr ⟨target, hcontrol⟩)
    · exact .idles (.inr (.inl ⟨target, hcontrol⟩))
  · next outcome hcontrol =>
    split
    · next hstack => exact .receives hcontrol hstack
    · next hstack => exact .finishes hcontrol hstack
  · next report failure hcontrol => exact .answers hcontrol
  · next result hcontrol => exact .idles (.inr (.inr ⟨result, hcontrol⟩))

end Machine

/-- The thread for which a step works on a lock. -/
def Op.actor? (w : World) (current : Option ThreadId) : Op → Option ThreadId
  | .mutex op => op.locker?.map fun t => (w.threadNamed t).1
  | .call op => op.locker?.map fun t => (w.threadNamed t).1
  | .thread .detach => current
  | _ => none

def Op.bare? : Op → Option (String × String)
  | .mutex op => op.bare?
  | .call (.rawLock t m) => some (t, m)
  | _ => none

def Wait.quest? : Wait → Option (ThreadId × LockId)
  | .acquire t l => some (t, l)
  | _ => none

def BodyKind.thread? : BodyKind → Option ThreadId
  | .thread t => some t
  | _ => none

/-- The thread for which an executor works on locks in its next step. -/
def Executor.actor? (w : World) (e : Executor) : Option ThreadId :=
  match e.control, e.stack with
  | .perform op, _ => op.actor? w e.current
  | .attempt wait, _ | .parked wait _ _, _ => wait.quest?.map Prod.fst
  | .releasing t _, _ => some t
  | .condition wait _ _, _ => some wait.thread
  | .give _, frame :: _ => frame.actor?
  | .answer _ _, .body run :: _ => run.kind.thread?
  | _, _ => none

def Executor.tampered? (w : World) (e : Executor) : Option LockId :=
  match e.control with
  | .perform op => op.bare?.map fun names => (w.threadAndLock names.1 names.2).2.1
  | _ => none

/-- Whether an executor can have this control while a lock is being taken by the frame on top. -/
def Control.isTaking : Control → Bool
  | .give _ => true
  | .attempt wait | .parked wait _ _ | .interrupted wait => wait.quest?.isSome
  | _ => false

/-- The executor goes on from `base`, which is its whole stack or what is below the frame on top:
one that receives an outcome or a body. -/
inductive Executor.Resumes (e : Executor) : List Frame → Prop where
  | whole (h : e.stack = [] ∨ e.control.isTaking = false) : Resumes e e.stack
  | below {frame : Frame} {base : List Frame} (hstack : e.stack = frame :: base)
    (hframe : (∃ outcome, e.control = .give outcome) ∨ ∃ run, frame = .body run)
    (hseat : frame.seat? = none) (hquest : frame.quest? = none) : Resumes e base

/-- What executor `me` can come to in one step. -/
inductive Advance (me : Nat) (w : World) (e : Executor) : Task → Prop where
  | begins {base : List Frame} {task : Task} (hbase : e.Resumes base)
    (h : task.Begun w base (e.actor? w)) : Advance me w e task
  | passes {outcome : Outcome} {frame : Frame} {base : List Frame} {w' : World}
    (hcontrol : e.control = .give outcome) (hstack : e.stack = frame :: base)
    (halike : w.Alike w')
    (hresult : ∀ y, outcome = .ok y → ∃ t l previous, frame = .blocking (.acquire t l) previous) :
    Advance me w e ⟨w', .give outcome, base⟩
  | retries {y : Yield} {t : ThreadId} {l : LockId} {previous : Status} {base : List Frame}
    {w' : World} (hcontrol : e.control = .give (.ok y))
    (hstack : e.stack = .polled (.acquire t l) :: base) (halike : w.Alike w') :
    Advance me w e ⟨w', .attempt (.acquire t l), .blocking (.acquire t l) previous :: base⟩
  | perseveres {err : Error} {t : ThreadId} {l : LockId} {holds : UInt32} {pending : Option Error}
    {previous : Status} {base : List Frame} {w' : World}
    (hcontrol : e.control = .give (.error (.error err)))
    (hstack : e.stack = .relocking t l holds pending :: base) (halike : w.Alike w') :
    Advance me w e ⟨w', .attempt (.acquire t l),
      .blocking (.acquire t l) previous :: .relocking t l holds (pending.or (some err)) :: base⟩
  | takes {t : ThreadId} {l : LockId} {w' : World} {sync : Sync Action}
    (hcontrol : e.control = .attempt (.acquire t l) ∨
      ∃ ticket wakeAt, e.control = .parked (.acquire t l) ticket wakeAt)
    (halike : w.Alike w') (hacquire : w'.sync.acquire t l = .acquired sync) :
    Advance me w e ⟨{ w' with sync }, .give (.ok .unit), e.stack⟩
  | waits {t : ThreadId} {l : LockId} {w' : World} {control : Control}
    (hcontrol : e.control = .attempt (.acquire t l) ∨
      ∃ ticket wakeAt, e.control = .parked (.acquire t l) ticket wakeAt)
    (halike : w.Alike w')
    (hnext : control = .interrupted (.acquire t l) ∨
      (∃ ticket wakeAt, control = .parked (.acquire t l) ticket wakeAt) ∨
      ∃ failure, control = .give (.error failure)) : Advance me w e ⟨w', control, e.stack⟩
  | polls {wait wait' : Wait} {previous : Status} {base : List Frame} {task : Task}
    (hcontrol : e.control = .interrupted wait) (hstack : e.stack = .blocking wait' previous :: base)
    (h : task.Launched w (.polled wait :: base)) : Advance me w e task
  | refuses {wait : Wait} (hcontrol : e.control = .interrupted wait)
    (hstack : ∀ wait previous base, e.stack ≠ .blocking wait previous :: base) :
    Advance me w e (w.giveFailure e.stack .interrupted)
  | records {y : Yield} {t : ThreadId} {l : LockId} {frame : Frame} {base : List Frame}
    {outcome : Outcome} {w' : World} (hcontrol : e.control = .give (.ok y))
    (hstack : e.stack = frame :: base) (hseat : frame.seat? = some (t, l))
    (hmoves : w.Moves (some t) none w') (hlisted : l ∈ (w'.thread t).ownedLocks)
    (howner : ∀ k, (w'.sync.lock k).owner = (w.sync.lock k).owner) :
    Advance me w e ⟨w', .give outcome, base⟩
  | misses {y : Yield} {t : ThreadId} {l : LockId} {frame : Frame} {base : List Frame}
    {failure : Failure} {w' : World} (hcontrol : e.control = .give (.ok y))
    (hstack : e.stack = frame :: base) (hseat : frame.seat? = some (t, l))
    (hmoves : w.Moves (some t) none w') (hfree : (w.sync.lock l).owner ≠ some t)
    (howner : ∀ k, (w'.sync.lock k).owner = (w.sync.lock k).owner) :
    Advance me w e ⟨w', .give (.error failure), base⟩
  | releases {t : ThreadId} {l : LockId} {sync : Sync Action}
    (hcontrol : e.control = .releasing t l) (hunlock : w.sync.unlockInternal t l = .ok sync) :
    Advance me w e ⟨{ w with sync }, .give (.ok .unit), e.stack⟩
  | fails {t : ThreadId} {l : LockId} {err : LockError} (hcontrol : e.control = .releasing t l)
    (herror : w.sync.unlockInternal t l = .error err) :
    Advance me w e (w.giveFailure e.stack (w.unlockPanic t l err))
  | continues {wait : ConditionWait} {phase : WaitPhase} {wakeAt wakeAt' : Option Nat}
    (hcontrol : e.control = .condition wait phase wakeAt) :
    Advance me w e ⟨{ w with sync := (wait.step w.clock me phase w.sync).2 },
      .condition wait (wait.step w.clock me phase w.sync).1 wakeAt', e.stack⟩
  | acts {op : Op} {outcome : Outcome} {task : Task} (hcontrol : e.control = .perform op)
    (hmoves : w.Moves (e.actor? w) (e.tampered? w) task.world)
    (howner : ∀ t l, (task.world.sync.lock l).owner = some t →
      (w.sync.lock l).owner = some t ∨ e.tampered? w = some l)
    (hgive : task.control = .give outcome) (hstack : Extends Frame.isOrdinary task.stack e.stack) :
    Advance me w e task
  | awaits {t m : String} (hcontrol : e.control = .perform (.call (.rawLock t m))) :
    Advance me w e ⟨(w.threadAndLock t m).2.2,
      .attempt (.acquire (w.threadNamed t).1 (w.threadAndLock t m).2.1), .showing .null :: e.stack⟩
  | grants {op : MutexOp} {cv : String} {f : Condition → Condition}
    (hcontrol : e.control = .perform (.mutex op))
    (hop : op = .signal cv ∧ f = Condition.signal ∨ op = .broadcast cv ∧ f = Condition.broadcast)
    (hfree : (w.sync.condition (w.conditionNamed cv).1).holder = none) :
    Advance me w e
      (((w.conditionNamed cv).2.updateSync (·.updateCondition (w.conditionNamed cv).1 f)).give
        e.stack .unit)
  | ends {report result : Report} {failure : Option Error} {run : BodyRun} {t : ThreadId}
    {base : List Frame} (hcontrol : e.control = .answer report failure)
    (hstack : e.stack = .body run :: base) (hkind : run.kind = .thread t) :
    Advance me w e ⟨w.updateSync (·.finishThread t), .finished result, []⟩
  | turns {report : Report} {failure : Option Error} {bottom : Frame} {base : List Frame}
    {task : Task} (hcontrol : e.control = .answer report failure)
    (hstack : e.stack = bottom :: base)
    (hbottom : bottom.isBottom) (halike : w.Alike task.world)
    (hnext : (∃ op, task.control = .perform op) ∨ ∃ result, task.control = .finished result)
    (hstack' : task.stack = [] ∨ ∃ running bottom' base', bottom'.isBottom ∧
      (base' = base ∨ base' = []) ∧ task.stack = .step running :: bottom' :: base') :
    Advance me w e task

variable {me : Nat} {w : World} {e : Executor}

private theorem advance_recordAnd {y : Yield} {t : ThreadId} {l : LockId} {frame : Frame}
    {base : List Frame} {w' : World} (outcome : Outcome) (hcontrol : e.control = .give (.ok y))
    (hstack : e.stack = frame :: base) (hseat : frame.seat? = some (t, l))
    (hmoves : w.Moves (some t) none w')
    (hrecord : ∀ {sync : Sync Action}, w'.sync.record? t l = some sync →
      w.Moves (some t) none { w' with sync })
    (howner : ∀ k, (w'.sync.lock k).owner = (w.sync.lock k).owner) :
    Advance me w e (w'.recordAnd base t l outcome) := by
  unfold World.recordAnd
  split
  · next sync hsync =>
    obtain ⟨hheld, heq⟩ := Sync.record?_eq hsync
    refine .records hcontrol hstack hseat (hrecord hsync) ?_ ?_
    · simp only [World.thread, heq, Sync.thread_updateThread, if_pos, ThreadRecord.addOwned]
      split
      · assumption
      · exact List.mem_append_right _ (List.mem_singleton_self l)
    · intro k
      rw [heq]
      exact howner k
  · next hsync =>
    refine .misses hcontrol hstack hseat hmoves ?_ howner
    intro hheld
    rw [← howner l, ← Sync.isHeld_iff] at hheld
    simp [Sync.record?, hheld] at hsync

private theorem advance_receive {frame : Frame} {base : List Frame} {outcome : Outcome}
    (hcontrol : e.control = .give outcome) (hstack : e.stack = frame :: base) :
    Advance me w e (frame.receive w base outcome) := by
  have hfailure : ∀ failure : Failure, outcome = .error failure →
      Advance me w e ⟨w, .give (.error failure), base⟩ := by
    rintro failure rfl
    exact .passes hcontrol hstack (.refl w) (fun y h => by cases h)
  have hplain : frame.seat? = none → frame.quest? = none →
      Advance me w e (frame.receive w base outcome) := by
    intro hseat hquest
    refine .begins (.below hstack (.inl ⟨outcome, hcontrol⟩) hseat hquest) ?_
    have hactor : e.actor? w = frame.actor? := by
      simp [Executor.actor?, hcontrol, hstack]
    rw [hactor]
    exact frame.begun_receive w base outcome hseat hquest
  cases frame with
  | acquiring t l =>
      cases outcome with
      | ok y =>
          refine advance_recordAnd _ hcontrol hstack rfl ((World.Alike.refl w).moves _ _) ?_
            fun _ => rfl
          intro sync hsync
          exact ⟨⟨w.sync, .refl _, .record hsync⟩, Sync.condition_of_record? hsync⟩
      | error failure => exact hfailure failure rfl
  | relocking t l holds pending =>
      rcases outcome with (err | _ | _ | _) | y
      · exact .perseveres hcontrol hstack (World.alike_updateThread w t fun _ => rfl)
      · exact hfailure _ rfl
      · exact hfailure _ rfl
      · exact hfailure _ rfl
      · refine advance_recordAnd _ hcontrol hstack rfl ?_ ?_ ?_
        · exact ⟨⟨w.sync, .refl _, .setHolds t l holds w.sync⟩, fun _ => rfl⟩
        · intro sync hsync
          refine ⟨⟨w.sync, .refl _, .relock hsync⟩, fun c => ?_⟩
          exact (Sync.condition_of_record? hsync c).trans (Sync.condition_updateLock _ _ _ c)
        · intro k
          simp only [World.updateSync, Sync.lock_updateLock]
          split
          · exact Lock.owner_setHoldCount t holds _
          · rfl
  | blocking wait previous =>
      cases wait with
      | acquire t l =>
          cases outcome with
          | ok y =>
              exact .passes hcontrol hstack (World.alike_updateThread w t fun _ => rfl)
                fun _ _ => ⟨t, l, previous, rfl⟩
          | error failure => exact hfailure failure rfl
      | _ => exact hplain rfl rfl
  | polled wait =>
      cases wait with
      | acquire t l =>
          rcases outcome with (err | _ | _ | _) | y
          · exact hfailure _ rfl
          · exact hfailure _ rfl
          · exact hfailure _ rfl
          · exact hfailure _ rfl
          · exact .retries hcontrol hstack (World.alike_updateThread w t fun _ => rfl)
      | _ => exact hplain rfl rfl
  | _ => exact hplain rfl rfl

def Progress.isOrdinary : Progress → Bool
  | .interrupted wait | .parked wait _ _ => wait.isOrdinary
  | _ => true

private theorem ordinary_unlessInterrupted {wait : Wait} {next : World × Progress}
    (hwait : wait.isOrdinary) (hnext : w.Alike next.1 ∧ next.2.isOrdinary) :
    w.Alike (wait.unlessInterrupted w next).1 ∧ (wait.unlessInterrupted w next).2.isOrdinary := by
  unfold Wait.unlessInterrupted
  split
  · exact ⟨World.alike_updateThread w _ fun _ => rfl, hwait⟩
  · exact hnext

theorem ordinary_attempt {wait : Wait} (ticket : Ticket) (w : World)
    (hwait : wait.isOrdinary) :
    w.Alike (wait.attempt ticket w).1 ∧ (wait.attempt ticket w).2.isOrdinary := by
  cases wait with
  | acquire t l => cases hwait
  | park t deadline parking =>
      have howned := Parking.ownedLocks_settle w.clock deadline parking (w.thread t)
      simp only [Wait.attempt]
      split
      · next interrupted thread hsettle =>
        rw [hsettle] at howned
        refine ⟨World.alike_replaceThread w t howned, ?_⟩
        split <;> rfl
      · next parking' thread hparked hsettle =>
        rw [hsettle] at howned
        exact ⟨World.alike_replaceThread w t howned, rfl⟩
  | take t q deadline =>
      simp only [Wait.attempt]
      split <;> exact ⟨.of_sync_eq rfl, rfl⟩
  | boundedTake t q deadline =>
      simp only [Wait.attempt]
      split <;> exact ⟨.of_sync_eq rfl, rfl⟩
  | put t q item =>
      simp only [Wait.attempt]
      split <;> exact ⟨.of_sync_eq rfl, rfl⟩
  | scripted t cues plain =>
      simp only [Wait.attempt]
      split
      · exact ⟨.refl w, rfl⟩
      · exact ordinary_unlessInterrupted rfl ⟨.refl w, rfl⟩
      · exact ⟨.refl w, rfl⟩

theorem ordinary_resume {wait : Wait} (old ticket : Ticket) (w : World)
    (hwait : wait.isOrdinary) :
    w.Alike (wait.resume old ticket w).1 ∧ (wait.resume old ticket w).2.isOrdinary := by
  -- The queue that the thread was parked in is not part of synchronisation.
  have hqueue : ∀ {w' : World}, w'.sync = w.sync →
      w.Alike (wait.unlessInterrupted w' (wait.attempt ticket w')).1 ∧
        (wait.unlessInterrupted w' (wait.attempt ticket w')).2.isOrdinary := by
    intro w' hsync
    obtain ⟨halike, hordinary⟩ :=
      ordinary_unlessInterrupted hwait (ordinary_attempt ticket w' hwait)
    exact ⟨(World.Alike.of_sync_eq hsync).trans halike, hordinary⟩
  cases wait with
  | acquire t l => cases hwait
  | park t deadline parking => exact ordinary_attempt ticket w hwait
  | scripted t cues plain => exact ordinary_attempt ticket w hwait
  | take t q deadline => exact hqueue rfl
  | boundedTake t q deadline => exact hqueue rfl
  | put t q item => exact hqueue rfl

@[simp] theorem world_afterAttempt (stack : List Frame) (w : World) (progress : Progress) :
    (afterAttempt stack w progress).world = w := by
  cases progress <;> rfl

private theorem launched_afterAttempt {w' : World} {stack base : List Frame} {progress : Progress}
    (halike : w.Alike w') (hprogress : progress.isOrdinary)
    (hstack : stack.map Frame.shape = base.map Frame.shape) :
    (afterAttempt stack w' progress).Launched w base := by
  refine .flat ?_ ?_ ?_
  · cases progress <;> exact halike
  · cases progress with
    | done y | panics text => rfl
    | interrupted wait => cases wait <;> first | rfl | cases hprogress
    | parked wait ticket wakeAt => cases wait <;> first | rfl | cases hprogress
  · cases progress <;> exact hstack

theorem shape_noteAttempt (w : World) (wait : Wait) (stack : List Frame) :
    (noteAttempt w wait stack).map Frame.shape = stack.map Frame.shape := by
  unfold noteAttempt
  split
  · apply shape_updateRunning
    intro running
    rfl
  · rfl

private theorem advance_acquire {t : ThreadId} {l : LockId} {w' : World} (ticket : Ticket)
    (hcontrol : e.control = .attempt (.acquire t l) ∨
      ∃ ticket wakeAt, e.control = .parked (.acquire t l) ticket wakeAt) (halike : w.Alike w') :
    Advance me w e (afterAttempt e.stack ((Wait.acquire t l).attempt ticket w').1
      ((Wait.acquire t l).attempt ticket w').2) := by
  simp only [Wait.attempt]
  split
  · next sync hacquire => exact .takes hcontrol halike hacquire
  · unfold Wait.unlessInterrupted
    split
    · exact .waits hcontrol (halike.trans (World.alike_updateThread w' _ fun _ => rfl)) (.inl rfl)
    · refine .waits hcontrol (halike.trans ?_) (.inr (.inl ⟨_, _, rfl⟩))
      exact Sync.Alike.updateLock w'.sync l (fun _ => rfl) fun _ => rfl
  · exact .waits hcontrol halike (.inr (.inr ⟨_, rfl⟩))

theorem alike_drawTicket (w : World) : w.Alike w.drawTicket.2 :=
  Sync.Alike.of_eq rfl rfl rfl

private theorem advance_attempt {wait : Wait} (hcontrol : e.control = .attempt wait) :
    Advance me w e (afterAttempt (noteAttempt w wait e.stack)
      (wait.attempt w.drawTicket.1 w.drawTicket.2).1
      (wait.attempt w.drawTicket.1 w.drawTicket.2).2) := by
  have hordinary : wait.isOrdinary → Advance me w e (afterAttempt (noteAttempt w wait e.stack)
      (wait.attempt w.drawTicket.1 w.drawTicket.2).1
      (wait.attempt w.drawTicket.1 w.drawTicket.2).2) := by
    intro hwait
    obtain ⟨halike, hprogress⟩ := ordinary_attempt w.drawTicket.1 w.drawTicket.2 hwait
    refine .begins (.whole (.inr ?_)) (.launched (launched_afterAttempt
      ((alike_drawTicket w).trans halike) hprogress (shape_noteAttempt w wait e.stack)))
    rw [hcontrol]
    cases wait <;> first | rfl | cases hwait
  cases wait with
  | acquire t l => exact advance_acquire _ (.inl hcontrol) (alike_drawTicket w)
  | _ => exact hordinary rfl

private theorem advance_resume {wait : Wait} {old : Ticket} {wakeAt : Option Nat}
    (hcontrol : e.control = .parked wait old wakeAt) :
    Advance me w e (afterAttempt e.stack
      (wait.resume old w.drawTicket.1 w.drawTicket.2).1
      (wait.resume old w.drawTicket.1 w.drawTicket.2).2) := by
  have hordinary : wait.isOrdinary → Advance me w e (afterAttempt e.stack
      (wait.resume old w.drawTicket.1 w.drawTicket.2).1
      (wait.resume old w.drawTicket.1 w.drawTicket.2).2) := by
    intro hwait
    obtain ⟨halike, hprogress⟩ := ordinary_resume old w.drawTicket.1 w.drawTicket.2 hwait
    refine .begins (.whole (.inr ?_)) (.launched (launched_afterAttempt
      ((alike_drawTicket w).trans halike) hprogress rfl))
    rw [hcontrol]
    cases wait <;> first | rfl | cases hwait
  cases wait with
  | acquire t l =>
      refine advance_acquire _ (.inr ⟨old, wakeAt, hcontrol⟩) ((alike_drawTicket w).trans ?_)
      exact Sync.Alike.updateLock _ l (fun _ => rfl) fun _ => rfl
  | _ => exact hordinary rfl

private theorem advance_answer {report : Report} {failure : Option Error} (watched : List Watched)
    (held : List ObjectRef) (hcontrol : e.control = .answer report failure) :
    Advance me w e (receiveAnswer watched held w e.stack report failure) := by
  rcases hstack : e.stack with _ | ⟨frame, base⟩
  · refine .begins (.whole (.inl hstack)) (.launched (.flat (.refl w) rfl ?_))
    rw [hstack]
    rfl
  have hother : Advance me w e ⟨w, .finished report, frame :: base⟩ := by
    refine .begins (.whole (.inr ?_)) (.launched (.flat (.refl w) rfl ?_))
    · rw [hcontrol]
      rfl
    · rw [hstack]
  cases frame with
  | session remaining answers =>
      have halike := World.alike_snapshots w held watched
      cases remaining with
      | nil => exact .turns hcontrol hstack rfl halike (.inr ⟨_, rfl⟩) (.inl rfl)
      | cons step rest =>
          exact .turns hcontrol hstack rfl halike (.inl ⟨_, rfl⟩)
            (.inr ⟨_, _, [], rfl, .inr rfl, rfl⟩)
  | body run =>
      generalize hrun : ({ run with answers := report :: run.answers } : BodyRun) = run'
      have hkind : run'.kind = run.kind := by rw [← hrun]
      have hreceive : receiveAnswer watched held w (.body run :: base) report failure =
          match failure with
          | some err => run'.conclude (some err) w base
          | none => run'.proceed w base := by
        rw [← hrun]
        cases failure <;> rfl
      rw [hreceive]
      by_cases hbottom : (Frame.body run).isBottom
      · obtain ⟨t, hthread⟩ : ∃ t, run.kind = .thread t := by
          cases hk : run.kind <;> simp [Frame.isBottom, hk] at hbottom ⊢
        have hend : ∀ failure, Advance me w e (run'.conclude failure w base) := by
          intro failure
          simp only [BodyRun.conclude, hkind, hthread]
          exact .ends hcontrol hstack hthread
        cases failure with
        | some err => exact hend _
        | none =>
            simp only [BodyRun.proceed]
            split
            · exact hend none
            · refine .turns hcontrol hstack hbottom (.refl w) (.inl ⟨_, rfl⟩)
                (.inr ⟨_, _, base, ?_, .inl rfl, rfl⟩)
              simpa [Frame.isBottom, hkind] using hbottom
      · have hinner : (Frame.body run').isOrdinary := by
          have hsame : (Frame.body run').isBottom = (Frame.body run).isBottom := by
            simp [Frame.isBottom, hkind]
          simp [Frame.isOrdinary, Frame.isInner, hsame, hbottom, Frame.seat?, Frame.quest?]
        refine .begins (.below hstack (.inr ⟨run, rfl⟩) rfl rfl) (.launched ?_)
        cases failure with
        | some err => exact run'.launched_conclude w base _ hinner
        | none => exact run'.launched_proceed w base hinner
  | _ => exact hother

private theorem advance_continueWait {wait : ConditionWait} {phase : WaitPhase}
    {wakeAt : Option Nat} (hcontrol : e.control = .condition wait phase wakeAt) :
    Advance me w e (continueWait me wait phase w e.stack) := by
  have hwhole : e.Resumes e.stack := .whole (.inr (by rw [hcontrol]; rfl))
  have hactor : e.actor? w = some wait.thread := by
    simp [Executor.actor?, hcontrol]
  cases phase with
  | polling holds =>
      exact .begins hwhole (.launched ((World.launched_startPoll w _ wait.thread).under rfl))
  | relocking holds result =>
      refine .begins hwhole ?_
      rw [hactor]
      exact (World.begun_startRelock w _ wait.thread wait.lock holds).under rfl
  | _ => exact .continues hcontrol

private theorem advance_release {t : ThreadId} {l : LockId}
    (hcontrol : e.control = .releasing t l) :
    Advance me w e (w.release e.stack t l) := by
  unfold World.release
  split
  · next sync hunlock => exact .releases hcontrol hunlock
  · next err herror => exact .fails hcontrol herror

private theorem launched_afterReply {reply : Reply} (stack : List Frame)
    (h : w.Alike reply.world) : (afterReply stack reply).Launched w stack := by
  refine .flat h rfl ?_
  simp only [afterReply]
  induction reply.events generalizing stack with
  | nil => rfl
  | cons event events ih => rw [List.foldl_cons, ih, shape_reportEvent]

private theorem advance_reply {op : Op} {reply : Reply} (hcontrol : e.control = .perform op)
    (h : w.Alike reply.world) : Advance me w e (afterReply e.stack reply) := by
  refine .begins (.whole (.inr ?_)) (.launched (launched_afterReply e.stack h))
  rw [hcontrol]
  rfl

private theorem advance_threadOp {op : ThreadOp Body} {scope : Scope}
    (hcontrol : e.control = .perform (.thread op)) (hscope : scope.current = e.current) :
    Advance me w e (afterReply e.stack (op.perform scope w).1) := by
  have halike := op.alike_perform scope w
  by_cases hdetach : op = .detach
  · subst hdetach
    cases hcurrent : scope.current with
    | none => exact advance_reply hcontrol (halike fun _ => hcurrent)
    | some t =>
        have hactor : e.actor? w = some t := by
          simp [Executor.actor?, hcontrol, Op.actor?, ← hscope, hcurrent]
        simp only [ThreadOp.perform, hcurrent]
        refine .acts hcontrol ?_ ?_ rfl (.refl _)
        · rw [hactor]
          exact ⟨⟨w.sync, .refl _, .finish t w.sync⟩, Sync.condition_finishThread w.sync t⟩
        · intro u l howner
          exact .inl (Sync.owner_of_finishThread howner)
  · exact advance_reply hcontrol (halike fun h => absurd h hdetach)

private theorem advance_mutexOp {op : MutexOp} (hcontrol : e.control = .perform (.mutex op))
    (hwait : op.mustWait w = false) : Advance me w e (op.start w e.stack) := by
  have hwhole : e.Resumes e.stack := .whole (.inr (by rw [hcontrol]; rfl))
  have hactor : e.actor? w = op.locker?.map fun t => (w.threadNamed t).1 := by
    simp [Executor.actor?, hcontrol, Op.actor?]
  cases hbare : op.bare? with
  | some names =>
      obtain ⟨hmoves, hother, ⟨outcome, hgive⟩, hstack⟩ := op.moves_start w e.stack hbare
      have htampered : e.tampered? w = some (w.threadAndLock names.1 names.2).2.1 := by
        simp [Executor.tampered?, hcontrol, Op.bare?, hbare]
      have hlocker : op.locker? = some names.1 := by
        cases op <;> cases hbare <;> rfl
      refine .acts hcontrol ?_ ?_ hgive ?_
      · rw [hactor, hlocker, htampered]
        exact hmoves
      · intro t l howner
        by_cases hl : (w.threadAndLock names.1 names.2).2.1 = l
        · exact .inr (hl ▸ htampered)
        · exact .inl (hother l hl ▸ howner)
      · rw [hstack]
        exact .refl _
  | none =>
      cases op with
      | signal cv =>
          refine .grants hcontrol (.inl ⟨rfl, rfl⟩) ?_
          simpa [MutexOp.mustWait] using hwait
      | broadcast cv =>
          refine .grants hcontrol (.inr ⟨rfl, rfl⟩) ?_
          simpa [MutexOp.mustWait] using hwait
      | _ =>
          refine .begins hwhole ?_
          rw [hactor]
          exact MutexOp.begun_start _ w e.stack hbare (by simp) (by simp)

structure Executor.Fresh (e : Executor) : Prop where
  control : (∃ op, e.control = .perform op) ∨ ∃ result, e.control = .finished result
  stack : e.stack = [] ∨ ∃ running bottom, bottom.isBottom ∧ e.stack = [.step running, bottom]

private theorem alike_finishThread {s : Sync Action} {t : ThreadId}
    (h : (s.thread t).ownedLocks = []) : s.Alike (s.finishThread t) where
  owner l := by rw [Sync.lock_finishThread, h]; rfl
  holds l := by rw [Sync.lock_finishThread, h]; rfl
  owned u := by
    rw [Sync.ownedLocks_finishThread]
    split
    · next htu => rw [← htu, h]
    · rfl
  condition := Sync.condition_finishThread s t

private theorem ownedLocks_newThread (w : World) (name : String) (threadName : Option String) :
    ((w.newThread name threadName).2.thread (w.newThread name threadName).1).ownedLocks = [] := by
  simp [World.newThread, World.thread, Sync.createThread, Sync.thread]

/-- A body that is spawned begins with its first step, or is over at once. -/
private theorem fresh_startBody {t : ThreadId} (body : Body)
    (h : (w.thread t).ownedLocks = []) :
    w.Alike (w.startBody [] (.thread t) body).world ∧
      Executor.Fresh ⟨some t, (w.startBody [] (.thread t) body).control,
        (w.startBody [] (.thread t) body).stack⟩ := by
  simp only [World.startBody, BodyRun.proceed]
  split
  · exact ⟨alike_finishThread h, .inr ⟨_, rfl⟩, .inl rfl⟩
  · exact ⟨.refl w, .inl ⟨_, rfl⟩, .inr ⟨_, _, rfl, rfl⟩⟩

namespace Machine

def Stepped (m : Machine) (me : Nat) (e : Executor) (m' : Machine) : Prop :=
  ∃ e' spawned, Advance me m.world e ⟨m'.world, e'.control, e'.stack⟩ ∧
    m'.executors = m.executors.set me e' ++ spawned ∧ ∀ x ∈ spawned, x.Fresh

private theorem stepped_put {m : Machine} {task : Task} (current : Option ThreadId)
    (h : Advance me m.world e task) : m.Stepped me e (m.put me current task) :=
  ⟨⟨current, task.control, task.stack⟩, [], h, by simp [put], by simp⟩

private theorem stepped_spawn {m : Machine} {op : Op} (hcontrol : e.control = .perform op)
    (name : String) (threadName : Option String) (body : Body) :
    m.Stepped me e (m.spawn me e name threadName body) := by
  have hwhole : e.Resumes e.stack := .whole (.inr (by rw [hcontrol]; rfl))
  unfold spawn
  split
  · next text htext =>
    refine stepped_put _ (.begins hwhole (.launched ?_))
    exact (World.launched_giveFailure _ _ _).of_alike (Sync.Alike.createThread m.world.sync _)
  · obtain ⟨halike, hfresh⟩ :=
      fresh_startBody body (ownedLocks_newThread m.world name threadName)
    refine ⟨_, _, .begins hwhole (.launched ?_), rfl, ?_⟩
    · exact (World.launched_give _ e.stack .unit).of_alike
        ((World.alike_newThread m.world name threadName).trans halike)
    · intro x hx
      rw [List.mem_singleton.mp hx]
      exact hfresh

private theorem perform_cases (m : Machine) (me : Nat) {op : Op}
    (hcontrol : e.control = .perform op) :
    m.perform me e op = m ∨ m.Stepped me e (m.perform me e op) := by
  have hwhole : e.Resumes e.stack := .whole (.inr (by rw [hcontrol]; rfl))
  cases op with
  | thread op => exact .inr (stepped_put _ (advance_threadOp hcontrol rfl))
  | mutex op =>
      simp only [perform]
      split
      · exact .inl rfl
      · next hwait =>
        exact .inr (stepped_put _ (advance_mutexOp hcontrol (Bool.eq_false_iff.mpr hwait)))
  | queue op => exact .inr (stepped_put _ (advance_reply hcontrol (op.alike_perform _)))
  | object op => exact .inr (stepped_put _ (advance_reply hcontrol (op.alike_perform _)))
  | space op => exact .inr (stepped_put _ (advance_reply hcontrol (op.alike_perform _ _)))
  | weak op => exact .inr (stepped_put _ (advance_reply hcontrol (op.alike_perform _ _)))
  | stack op => exact .inr (stepped_put _ (advance_reply hcontrol (op.alike_perform _)))
  | call op =>
      right
      have hstart : (∀ t m', op ≠ .rawLock t m') → ∀ held,
          Advance me m.world e (op.start held m.world e.stack) := by
        intro hbare held
        have hactor : e.actor? m.world = op.locker?.map fun t => (m.world.threadNamed t).1 := by
          simp [Executor.actor?, hcontrol, Op.actor?]
        refine .begins hwhole ?_
        rw [hactor]
        exact op.begun_start held m.world e.stack hbare
      cases op with
      | spawn name threadName body => exact stepped_spawn hcontrol name threadName body
      | join name =>
          simp only [perform]
          split
          · exact stepped_put _ (.begins hwhole (.launched (.flat (.refl _) rfl rfl)))
          · exact stepped_put _ (.begins hwhole (.launched (World.launched_giveFailure _ _ _)))
      | rawLock t m' => exact stepped_put _ (.awaits hcontrol)
      | _ => exact stepped_put _ (hstart (by simp) _)

/-- Every step of a machine leaves it as it is or is an advance of one executor, which may have
spawned another one. -/
theorem step_cases (m : Machine) (me : Nat) :
    m.step me = m ∨ ∃ e, m.executors[me]? = some e ∧ m.Stepped me e (m.step me) := by
  cases he : m.executors[me]? with
  | none => exact .inl (by simp [step, he])
  | some e =>
      have hput : ∀ {task : Task}, Advance me m.world e task →
          m.put me e.current task = m ∨
            ∃ e', some e = some e' ∧ m.Stepped me e' (m.put me e.current task) :=
        fun h => .inr ⟨e, rfl, stepped_put _ h⟩
      have hdoes := does he
      generalize m.step me = m' at hdoes ⊢
      cases hdoes with
      | idles => exact .inl rfl
      | performs hcontrol =>
          rcases perform_cases m me hcontrol with hsame | hstepped
          · exact .inl hsame
          · exact .inr ⟨e, rfl, hstepped⟩
      | attempts hcontrol => exact hput (advance_attempt hcontrol)
      | resumes hcontrol => exact hput (advance_resume hcontrol)
      | releases hcontrol => exact hput (advance_release hcontrol)
      | polls hcontrol hstack =>
          exact hput (.polls hcontrol hstack ((World.launched_startPoll _ _ _).of_alike
            (World.alike_updateThread _ _ fun _ => rfl)))
      | refuses hcontrol hstack => exact hput (.refuses hcontrol hstack)
      | continues hcontrol => exact hput (advance_continueWait hcontrol)
      | learns hcontrol =>
          refine hput (.begins (.whole (.inr ?_)) (.launched (World.launched_give _ _ _)))
          rcases hcontrol with ⟨what, hcontrol⟩ | ⟨target, hcontrol⟩ <;> rw [hcontrol] <;> rfl
      | receives hcontrol hstack => exact hput (advance_receive hcontrol hstack)
      | finishes hcontrol hstack =>
          refine hput (.begins (.whole (.inl hstack)) (.launched (.flat (.refl _) rfl ?_)))
          rw [hstack]
      | answers hcontrol => exact hput (advance_answer _ _ hcontrol)

end Machine

end RubyRuntime.Session
