import RubyRuntime.Proofs.Mutex.Ownership
import RubyRuntime.Proofs.Thread.Statuses

/-!
# The end of a thread

When the body of a spawned thread ends, in whatever way, the locks that the thread has on record are
released. The main result is that in a run in which each thread is driven by one executor and nobody
works on bare locks, this releases all locks of the thread and nothing else, and that the thread
stays dead.
-/
namespace RubyRuntime

namespace Sync

variable {α : Type}

theorem registered_finishThread (s : Sync α) (t : ThreadId) :
    (s.finishThread t).registered = s.registered.filter (· ≠ t) := by
  have hfold : ∀ (owned : List LockId) (s : Sync α),
      (owned.foldl (fun s l => s.updateLock l (·.releaseFully t)) s).registered =
        s.registered := by
    intro owned
    induction owned with
    | nil => exact fun _ => rfl
    | cons l owned ih => exact fun s => ih (s.updateLock l (·.releaseFully t))
  simp only [finishThread, releaseOwned, hfold]
  rfl

end Sync

namespace Session

namespace Machine

/-- The thread whose body the next step of executor `me` ends, and the executor of this body. A body
without steps ends when its thread is spawned. -/
def exiting? (me : Nat) (m : Machine) : Option (ThreadId × Nat) :=
  m.executors[me]?.bind fun e =>
    match e.control, e.stack with
    | .answer _ failure, .body run :: _ =>
      if failure.isSome || run.remaining.isEmpty then run.kind.thread?.map (·, me) else none
    | .perform (.call (.spawn _ threadName body)), _ =>
      if (threadName.bind hostNameRefusal?).isNone && body.steps.isEmpty then
        some (m.world.sync.threads.length, m.executors.length)
      else none
    | _, _ => none

/-- Whether the next step of executor `me` begins and ends blocking calls only for a thread that it
drives. -/
def blocksFor (driver : ThreadId → Nat) (m : Machine) (me : Nat) : Bool :=
  (m.sleeper? me).all (driver · == me)

structure Gone (t : ThreadId) (i : Nat) (m : Machine) : Prop where
  dead : (m.world.thread t).status = .dead
  finished : ∃ x result, m.executors[i]? = some x ∧ x.control = .finished result

variable {m : Machine} {me i : Nat} {t : ThreadId} {l : LockId} {driver : ThreadId → Nat}

private theorem conclude_thread (run : BodyRun) (hkind : run.kind.thread? = some t)
    (failure : Option Error) (w : World) (stack : List Frame) :
    ∃ result, run.conclude failure w stack =
      ⟨w.updateSync (·.finishThread t), .finished result, []⟩ := by
  unfold BodyRun.conclude
  cases hrun : run.kind with
  | thread t' =>
      rw [hrun] at hkind
      cases hkind
      exact ⟨_, rfl⟩
  | _ =>
      rw [hrun] at hkind
      cases hkind

private theorem step_answer {e : Executor} {report : Report} {failure : Option Error}
    {run : BodyRun} {base : List Frame} (he : m.executors[me]? = some e)
    (hcontrol : e.control = .answer report failure) (hstack : e.stack = .body run :: base)
    (hends : failure.isSome || run.remaining.isEmpty) (hkind : run.kind.thread? = some t) :
    ∃ result, m.step me =
      m.put me e.current ⟨m.world.updateSync (·.finishThread t), .finished result, []⟩ := by
  obtain ⟨result, hconclude⟩ := conclude_thread { run with answers := report :: run.answers } hkind
    failure m.world base
  refine ⟨result, ?_⟩
  rw [← hconclude]
  cases failure with
  | some error => simp only [step, he, hcontrol, hstack, receiveAnswer]
  | none =>
      have hnone : run.remaining = [] := by simpa using hends
      simp only [step, he, hcontrol, hstack, receiveAnswer, BodyRun.proceed, hnone]

private theorem step_spawn {e : Executor} {name : String} {threadName : Option String}
    {body : Body} (he : m.executors[me]? = some e)
    (hcontrol : e.control = .perform (.call (.spawn name threadName body)))
    (hempty : (threadName.bind hostNameRefusal?).isNone && body.steps.isEmpty) :
    ∃ x result, (m.step me).world.sync = (m.world.sync.createThread threadName).2.finishThread
        m.world.sync.threads.length ∧
      (m.step me).executors[m.executors.length]? = some x ∧ x.control = .finished result := by
  simp only [Bool.and_eq_true, Option.isNone_iff_eq_none, List.isEmpty_iff] at hempty
  obtain ⟨result, hconclude⟩ := conclude_thread
    ⟨.thread m.world.sync.threads.length, [], [], body.ending⟩ rfl none
    (m.world.newThread name threadName).2 []
  refine ⟨⟨some m.world.sync.threads.length, .finished result, []⟩, result, ?_, ?_, rfl⟩
  · simp only [step, he, hcontrol, perform, spawn, hempty.1, World.startBody, BodyRun.proceed,
      hempty.2]
    rfl
  · have hnew : (m.world.newThread name threadName).1 = m.world.sync.threads.length := rfl
    simp only [step, he, hcontrol, perform, spawn, hempty.1, World.startBody, BodyRun.proceed,
      hempty.2, hnew, hconclude]
    simp [put]

/-- At its end, a thread is in a world with the locks of the machine, in which at most this thread
is new, and its executor has no lock to record. -/
theorem exit_cases (h : m.exiting? me = some (t, i)) :
    ∃ sync : Sync Action, (m.step me).world.sync = sync.finishThread t ∧
      sync.locks = m.world.sync.locks ∧ m.world.sync.SameLocks sync ∧
      (∀ u, u ≠ t → (u ∈ sync.registered ↔ u ∈ m.world.sync.registered)) ∧
      (∀ x, m.executors[i]? = some x → ∀ l, x.hasTaken t l = false) ∧
      ∃ x result, (m.step me).executors[i]? = some x ∧ x.control = .finished result := by
  unfold exiting? at h
  obtain ⟨e, he, h⟩ := Option.bind_eq_some_iff.mp h
  split at h
  · next report failure run base hcontrol hstack =>
    split at h
    · next hends =>
      obtain ⟨t', hkind, heq⟩ := Option.map_eq_some_iff.mp h
      cases heq
      obtain ⟨result, hstep⟩ := step_answer he hcontrol hstack hends hkind
      refine ⟨m.world.sync, by rw [hstep]; rfl, rfl, (Sync.Alike.refl _).toSameLocks,
        fun _ _ => .rfl, ?_, ?_⟩
      · intro x hx l
        cases he.symm.trans hx
        simp [Executor.hasTaken, Control.hasTaken, hcontrol]
      · rw [hstep]
        exact ⟨_, result, executors_put he _ _, rfl⟩
    · cases h
  · next name threadName body hcontrol =>
    split at h
    · next hempty =>
      cases h
      obtain ⟨x, result, hsync, hx, hfinished⟩ := step_spawn he hcontrol hempty
      refine ⟨_, hsync, rfl, (Sync.Alike.createThread _ _).toSameLocks, ?_, ?_, x, result, hx,
        hfinished⟩
      · intro u hu
        simp [Sync.createThread, hu]
      · intro x hx
        simp at hx
    · cases h
  · cases h

theorem Owned.owner_ne_of_exit (h : m.Owned driver l) (hexit : m.exiting? me = some (t, i))
    (hdriver : driver t = i) : ((m.step me).world.sync.lock l).owner ≠ some t := by
  obtain ⟨sync, hsync, -, hsame, -, htaken, -⟩ := exit_cases hexit
  have hrecorded : (sync.lock l).owner = some t → l ∈ (sync.thread t).ownedLocks := by
    intro howner
    rw [hsame.owner l] at howner
    rw [hsame.owned t]
    rcases h.recorded howner with hmem | ⟨x, hx, htakes⟩
    · exact hmem
    · rw [htaken x (hdriver ▸ hx) l] at htakes
      cases htakes
  rw [hsync, Sync.lock_finishThread]
  split
  · next hmem =>
    have howner : (sync.lock l).owner = some t := by
      rw [hsame.owner l]
      exact h.listed (hsame.owned t ▸ hmem)
    rw [(Lock.releaseFully_of_held howner).1]
    exact Option.some_ne_none t |>.symm
  · next hfree => exact fun howner => hfree (hrecorded howner)

theorem Owned.lock_eq_of_exit (h : m.Owned driver l) (hexit : m.exiting? me = some (t, i))
    (howner : (m.world.sync.lock l).owner ≠ some t) :
    (m.step me).world.sync.lock l = m.world.sync.lock l := by
  obtain ⟨sync, hsync, hlocks, hsame, -⟩ := exit_cases hexit
  have hother : l ∉ (sync.thread t).ownedLocks := by
    rw [hsame.owned t]
    exact fun hmem => howner (h.listed hmem)
  rw [hsync, Sync.lock_finishThread, if_neg hother, Sync.lock, hlocks]
  rfl

theorem Gone.step (h : m.Gone t i) (hdriver : driver t = i) (hcalls : m.blocksFor driver me) :
    (m.step me).Gone t i := by
  obtain ⟨x, result, hx, hfinished⟩ := h.finished
  have hsame : (m.step i) = m := by simp [Machine.step, hx, hfinished]
  by_cases hi : me = i
  · rw [hi, hsame]
    exact h
  · refine ⟨dead_step h.dead fun hsleeper => hi ?_, x, result,
      executors_step_of_ne (Ne.symm hi) hx, hfinished⟩
    have hme : driver t = me := by simpa [blocksFor, hsleeper] using hcalls
    exact hme.symm.trans hdriver

theorem Gone.follow {moves : List Move} (h : m.Gone t i) (hdriver : driver t = i)
    (hrun : m.along (blocksFor driver) moves) : (m.follow moves).Gone t i := by
  refine follow_keeps (P := Gone t i) ?_ ?_ hrun h
  · exact fun m me hcalls h => h.step hdriver hcalls
  · exact fun m millis h => ⟨h.dead, h.finished⟩

end Machine

theorem ThreadOp.perform_of_dead {w : World} {name : String} {t : ThreadId}
    (hname : w.names.threads.lookup name = some t) (hdead : (w.thread t).status = .dead)
    (scope : Scope) :
    (ThreadOp.kill name).perform scope w = (w.reply .null, scope.current) ∧
      (∀ e, (ThreadOp.raiseIn name e).perform scope w = (w.reply .null, scope.current)) ∧
      (ThreadOp.wakeUp name).perform scope w = (w.fail Cause.deadThread.error, scope.current) := by
  have hnamed : w.threadNamed name = (t, w) := by simp only [World.threadNamed, hname]
  have halive : (w.thread t).isAlive = false := by simp [ThreadRecord.isAlive, hdead]
  have hsubmit : ∀ action, w.sync.submitIfAlive t action = w.sync := by
    intro action
    have halive : (w.sync.thread t).isAlive = false := halive
    simp [Sync.submitIfAlive, halive]
  refine ⟨?_, fun e => ?_, ?_⟩
  · simp only [ThreadOp.perform, hnamed, World.updateSync, hsubmit]
  · simp only [ThreadOp.perform, hnamed, World.updateSync, hsubmit]
  · simp [ThreadOp.perform, hnamed, halive]

/-- The end of a thread releases everything. Take any run in which each thread is driven by one
executor and nobody works on bare locks, and a step that ends the body of a spawned thread, with a
result, an error or a panic. Afterwards the thread owns no lock, has none on record, is dead and not
registered. Locks that it did not own are as they were, and so are the lists and the registration of
all other threads. As long as blocking calls are made only by those who drive their threads, the
thread stays dead: killing it and raising in it change nothing, and waking it raises an error. -/
theorem thread_exit_releases_everything (script : Script) (moves : List Move)
    (driver : ThreadId → Nat)
    (hrun : script.start.along (fun m me => m.isDriven driver me && (m.tampered? me).isNone) moves)
    {me i : Nat} {t : ThreadId} (hexit : (script.start.follow moves).exiting? me = some (t, i))
    (hdriver : driver t = i) :
    let before := (script.start.follow moves).world
    let after := (script.start.follow moves).step me
    (∀ l, (after.world.sync.lock l).owner ≠ some t) ∧
      (after.world.thread t).ownedLocks = [] ∧
      (after.world.thread t).status = .dead ∧
      t ∉ after.world.sync.registered ∧
      (∀ l, (before.sync.lock l).owner ≠ some t →
        after.world.sync.lock l = before.sync.lock l) ∧
      (∀ u, u ≠ t → (after.world.thread u).ownedLocks = (before.thread u).ownedLocks ∧
        (u ∈ after.world.sync.registered ↔ u ∈ before.sync.registered)) ∧
      ∀ later, after.along (Machine.blocksFor driver) later →
        let last := (after.follow later).world
        ∀ scope name, last.names.threads.lookup name = some t →
          (ThreadOp.kill name).perform scope last = (last.reply .null, scope.current) ∧
          (∀ e, (ThreadOp.raiseIn name e).perform scope last =
            (last.reply .null, scope.current)) ∧
          (ThreadOp.wakeUp name).perform scope last =
            (last.fail Cause.deadThread.error, scope.current) := by
  intro before after
  have howned : ∀ l, (script.start.follow moves).Owned driver l := by
    intro l
    refine Machine.follow_keeps (P := Machine.Owned driver l) ?_ ?_ hrun (.start script)
    · intro m me horderly h
      simp only [Bool.and_eq_true, Option.isNone_iff_eq_none] at horderly
      exact h.step horderly.1 (by simp [Machine.spares, horderly.2])
    · intro m millis h
      exact ⟨h.fits, h.sure, h.listed, h.recorded⟩
  obtain ⟨sync, hsync, -, hsame, hregistered, -, hfinished⟩ := Machine.exit_cases hexit
  have hdead : (after.world.thread t).status = .dead := by
    rw [World.thread, hsync, Sync.status_finishThread, if_pos rfl]
  refine ⟨fun l => (howned l).owner_ne_of_exit hexit hdriver, ?_, hdead, ?_,
    fun l howner => (howned l).lock_eq_of_exit hexit howner, fun u hu => ⟨?_, ?_⟩, ?_⟩
  · rw [World.thread, hsync, Sync.ownedLocks_finishThread, if_pos rfl]
  · rw [hsync, Sync.registered_finishThread]
    simp
  · rw [World.thread, hsync, Sync.ownedLocks_finishThread, if_neg hu.symm, hsame.owned u]
    rfl
  · rw [hsync, Sync.registered_finishThread, List.mem_filter, hregistered u hu]
    simp [hu, before]
  · intro later hlater last scope name hname
    have hgone : (after.follow later).Gone t i :=
      Machine.Gone.follow ⟨hdead, hfinished⟩ hdriver hlater
    exact ThreadOp.perform_of_dead hname hgone.dead scope

/-- A thread takes one mutex, and another inside a guarded block that panics; then it panics
itself. -/
def hastyExit : Script where
  options := {}
  watched := []
  steps := [.mk false (.call (.lock "main" "kept")),
    .mk false (.call (.spawn "hasty" none
      (.mk [.mk false (.call (.lock "hasty" "outer")),
        .mk false (.call (.synchronize "hasty" "guard"
          (.mk [.mk false (.call (.lock "hasty" "inner"))] none (some "inside") .null)))]
        none (some "outside") .null))),
    .mk false (.thread (.kill "hasty"))]

def hastyMoves : List Move :=
  List.replicate 8 (.step 0) ++ List.replicate 18 (.step 1)

theorem thread_exit_releases_everything_hastyExit :
    let m := hastyExit.start.follow hastyMoves
    let last := ((m.step 1).follow [.step 0]).world
    (m.world.thread 1).ownedLocks = [1, 3] ∧ (m.world.sync.lock 3).owner = some 1 ∧
      (∀ l, ((m.step 1).world.sync.lock l).owner ≠ some 1) ∧
      ((m.step 1).world.sync.lock 0).owner = some 0 ∧
      (ThreadOp.wakeUp "hasty").perform ⟨0, none, []⟩ last =
        (last.fail Cause.deadThread.error, none) := by
  intro m last
  have hrun : hastyExit.start.along (fun m me => m.isDriven id me && (m.tampered? me).isNone)
      hastyMoves := by decide +kernel
  have hexit : m.exiting? 1 = some (1, 1) := by decide +kernel
  have hkept : (m.world.sync.lock 0).owner = some 0 := by decide +kernel
  have hlater : (m.step 1).along (Machine.blocksFor id) [.step 0] := by decide +kernel
  have hname : last.names.threads.lookup "hasty" = some 1 := by decide +kernel
  obtain ⟨hfree, -, -, -, hlocks, -, hdead⟩ :=
    thread_exit_releases_everything hastyExit hastyMoves id hrun hexit rfl
  refine ⟨by decide +kernel, by decide +kernel, hfree, ?_, ?_⟩
  · rw [hlocks 0 (by rw [hkept]; simp)]
    exact hkept
  · exact (hdead [.step 0] hlater ⟨0, none, []⟩ "hasty" hname).2.2

end Session

end RubyRuntime
