import RubyRuntime.Proofs.Mutex.Stages

/-!
# Taking a mutex again

The main result is that a condition wait or a sleep with a mutex never returns without the mutex:
whatever happens in between, the thread then has the holds that it is to have, and the mutex is on
its list. An error that ended the pause is raised in preference to those of the re-acquisition, of
which only the first is. A thread that does not hold the mutex is refused, and nothing changes.
-/
namespace RubyRuntime

namespace Sync

variable {α : Type} {s s' s'' : Sync α}

structure Undisturbed (s s' : Sync α) : Prop where
  lock : ∀ l, s'.lock l = s.lock l
  condition : ∀ c, s'.condition c = s.condition c
  wakeUp : ∀ t, (s'.thread t).wakeUp = (s.thread t).wakeUp
  owned : ∀ t, (s'.thread t).ownedLocks = (s.thread t).ownedLocks

theorem Undisturbed.refl (s : Sync α) : s.Undisturbed s :=
  ⟨fun _ => rfl, fun _ => rfl, fun _ => rfl, fun _ => rfl⟩

theorem Undisturbed.trans (h : s.Undisturbed s') (h' : s'.Undisturbed s'') :
    s.Undisturbed s'' where
  lock l := (h'.lock l).trans (h.lock l)
  condition c := (h'.condition c).trans (h.condition c)
  wakeUp t := (h'.wakeUp t).trans (h.wakeUp t)
  owned t := (h'.owned t).trans (h.owned t)

end Sync

namespace Session

namespace World

variable (w : World)

theorem undisturbed_threadAndLock (t m : String) :
    w.sync.Undisturbed (w.threadAndLock t m).2.2.sync := by
  have hthread : w.sync.Undisturbed (w.threadNamed t).2.sync := by
    unfold threadNamed
    split
    · exact .refl _
    · exact ⟨fun _ => rfl, fun _ => rfl, w.sync.field_createThread _ (·.wakeUp) rfl,
        w.sync.field_createThread _ (·.ownedLocks) rfl⟩
  have hlock : ∀ w : World, w.sync.Undisturbed (w.lockNamed m).2.sync := by
    intro w
    unfold lockNamed
    split
    · exact .refl _
    · exact ⟨w.sync.lock_createLock, fun _ => rfl, fun _ => rfl, fun _ => rfl⟩
  exact hthread.trans (hlock _)

theorem undisturbed_conditionNamed (cv : String) :
    w.sync.Undisturbed (w.conditionNamed cv).2.sync := by
  unfold conditionNamed
  split
  · exact .refl _
  · exact ⟨fun _ => rfl, w.sync.condition_createCondition, fun _ => rfl, fun _ => rfl⟩

end World

/-- A call that releases a mutex, pauses, and takes the mutex again. -/
inductive Pause where
  | wait (cv : String) (timeout : Timeout)
  | sleep (timeout : Timeout)

def Pause.op (t m : String) : Pause → CallOp Body Step
  | wait cv timeout => .wait t m cv timeout
  | sleep timeout => .mutexSleep t m timeout

def Pause.showing : Pause → Showing
  | wait _ _ => .waited
  | sleep timeout => .slept timeout

/-- The holds with which the call returns when it was made with `holds`: a wait restores them all, a
sleep takes the mutex once. -/
def Pause.holdsAfter (holds : UInt32) : Pause → UInt32
  | wait _ _ => holds
  | sleep _ => 1

def Machine.note (me height : Nat) (m : Machine) (i : Nat) (errors : Errors) : Errors :=
  match m.executors[me]? with
  | some e => if i = me then errors.note e.control (e.above height) else errors
  | none => errors

def Machine.errors (me height : Nat) : Machine → Errors → List Move → Errors
  | _, errors, [] => errors
  | m, errors, .step i :: moves => (m.step i).errors me height (m.note me height i errors) moves
  | m, errors, .tick millis :: moves => (m.tick millis).errors me height errors moves

namespace Machine

variable {t : ThreadId} {l : LockId} {holds : UInt32} {base : List Frame} {errors : Errors}
  {me : Nat} {m : Machine} {e : Executor}

def Within (t : ThreadId) (l : LockId) (holds : UInt32) (base : List Frame) (me : Nat)
    (errors : Errors) (m : Machine) : Prop :=
  ∃ e, m.executors[me]? = some e ∧
    Task.Within t l holds base errors ⟨m.world, e.control, e.stack⟩

private theorem within_put {task : Task} (he : m.executors[me]? = some e)
    (current : Option ThreadId) (h : task.Within t l holds base errors) :
    (m.put me current task).Within t l holds base me errors :=
  ⟨_, executors_put he current task, h⟩

private theorem within_step_suspended {above rest below : List Frame} {mark : Frame}
    (he : m.executors[me]? = some e) (hstack : e.stack = above ++ mark :: rest ++ below)
    (hbelow : below.map Frame.shape = base.map Frame.shape)
    (habove : ∀ f ∈ above, f.isInner) (h : Suspended t l holds errors mark rest)
    (hbusy : ∀ outcome, e.control = .give outcome → above ≠ []) :
    (m.step me).Within t l holds base me errors := by
  have hshape : (rest ++ below).map Frame.shape = (rest ++ base).map Frame.shape := by
    simp [hbelow]
  have hstands : Above mark (rest ++ base) e.stack :=
    ⟨above, rest ++ below, by simp [hstack], hshape, habove⟩
  have hmark : mark.isMark := by cases h <;> rfl
  have hgive : ∀ outcome, e.control = .give outcome → e.above (rest ++ base).length ≠ [mark] := by
    intro outcome hcontrol htop
    have hframes : e.stack = (above ++ [mark]) ++ (rest ++ below) := by simp [hstack]
    rw [above_eq hframes hshape] at htop
    exact hbusy outcome hcontrol (by simpa using htop)
  obtain ⟨next, hnext, above', below', hstack', hbelow', habove'⟩ :=
    above_step he hmark hstands hgive
  obtain ⟨below'', rfl, hbelow''⟩ :=
    exists_below_of_shape hbelow' fun f hf => h.ne_step f (List.mem_cons_of_mem _ hf)
  exact ⟨next, hnext, above' ++ mark :: rest, below'', by simpa using hstack', hbelow'',
    .suspended h habove'⟩

private theorem within_step_retaking {previous : Status} {last : Frame} {below : List Frame}
    (he : m.executors[me]? = some e)
    (hcontrol : e.control = .attempt (.acquire t l) ∨
      (∃ ticket wakeAt, e.control = .parked (.acquire t l) ticket wakeAt) ∨
      e.control = .interrupted (.acquire t l))
    (hstack : e.stack = .blocking (.acquire t l) previous ::
      .relocking t l holds errors.raised.head? :: last :: below)
    (hbelow : below.map Frame.shape = base.map Frame.shape)
    (hlast : last.kept? = some errors.ended) : (m.step me).Within t l holds base me errors := by
  rcases hcontrol with hcontrol | ⟨ticket, wakeAt, hcontrol⟩ | hcontrol
  · have hstep : m.step me = m.put me e.current (afterAttempt e.stack
        ((Wait.acquire t l).attempt m.world.drawTicket.1 m.world.drawTicket.2).1
        ((Wait.acquire t l).attempt m.world.drawTicket.1 m.world.drawTicket.2).2) := by
      simp [step, he, hcontrol, noteAttempt]
    rw [hstep, hstack]
    exact within_put he _ (within_attempt _ _ hbelow hlast)
  · have hstep : m.step me = m.put me e.current (afterAttempt e.stack
        ((Wait.acquire t l).resume ticket m.world.drawTicket.1 m.world.drawTicket.2).1
        ((Wait.acquire t l).resume ticket m.world.drawTicket.1 m.world.drawTicket.2).2) := by
      simp [step, he, hcontrol]
    rw [hstep, hstack]
    exact within_put he _ (within_attempt _ _ hbelow hlast)
  · -- The interrupted call polls in the place of the frame that waited.
    simp only [step, he, hcontrol, hstack]
    exact within_put he _ (within_startPoll _ _ hbelow (.relock hlast))

theorem Within.step_self (h : m.Within t l holds base me errors) (hpos : 0 < holds)
    (hopen : m.returned? me base.length = none) :
    (m.step me).Within t l holds base me (m.note me base.length me errors) := by
  obtain ⟨e, he, frames, below, hstack, hbelow, hstage⟩ := h
  simp only at hstack hstage
  have hnote : m.note me base.length me errors = errors.note e.control frames := by
    simp [note, he, above_eq hstack hbelow]
  have hinside : ∀ outcome, e.control = .give outcome → frames ≠ [] := by
    intro outcome hcontrol hframes
    rw [(returned?_eq_some he hstack hbelow).mpr ⟨hcontrol, hframes⟩] at hopen
    cases hopen
  rw [hnote]
  generalize hcontrol : e.control = control at hstage hinside
  have hgive : ∀ {outcome frame stack}, control = .give outcome → e.stack = frame :: stack →
      m.step me = m.put me e.current (frame.receive m.world stack outcome) :=
    fun h hstack => step_give he (hcontrol.trans h) hstack
  cases hstage with
  | @waiting _ wait phase wakeAt hthread hlock hknows =>
      have hstep : m.step me =
          m.put me e.current (continueWait me wait phase m.world e.stack) := by
        simp [step, he, hcontrol]
      rw [hstep, hstack]
      exact within_put he _ (within_continueWait m.world me hbelow hthread hlock hknows)
  | releasing howner hone =>
      have hstep : m.step me = m.put me e.current (m.world.release e.stack t l) := by
        simp [step, he, hcontrol]
      rw [hstep, hstack]
      exact within_put he _ (within_release m.world hbelow hone howner)
  | released hone =>
      rw [hgive rfl hstack]
      exact within_put he _ (within_startSleep m.world hbelow hone)
  | @suspended _ _ above mark rest hsuspended hinner =>
      by_cases hready : ∃ outcome, control = .give outcome ∧ above = []
      · obtain ⟨outcome, rfl, rfl⟩ := hready
        rw [hgive rfl hstack]
        exact within_put he _ (within_receive_mark m.world hbelow hsuspended)
      · have hbusy : ∀ outcome, control = .give outcome → above ≠ [] :=
          fun outcome hcontrol hempty => hready ⟨outcome, hcontrol, hempty⟩
        rw [hsuspended.note_eq hbusy]
        rw [← hcontrol] at hbusy
        exact within_step_suspended he hstack hbelow hinner hsuspended hbusy
  | slept hone houtcome =>
      rw [hgive rfl hstack]
      exact within_put he _ (within_receive_sleeping m.world hone hbelow houtcome)
  | retaking htaking hlast =>
      have hsame : ∀ frames, errors.note control frames = errors := by
        rcases htaking with rfl | ⟨ticket, wakeAt, rfl⟩ | rfl <;> exact fun _ => rfl
      rw [hsame]
      exact within_step_retaking he (hcontrol ▸ htaking) hstack hbelow hlast
  | failing hpending hlast =>
      rw [hgive rfl hstack]
      simp only [Frame.receive, ← hpending]
      exact within_put he _ (within_startBlocking m.world hbelow hlast)
  | awake howner hlast =>
      rw [hgive rfl hstack]
      exact within_put he _ ⟨[_, _], below, rfl, hbelow, .taken howner hlast⟩
  | taken howner hlast =>
      rw [hgive rfl hstack]
      exact within_put he _ (within_relocked m.world hbelow hpos howner hlast)
  | @recorded _ outcome last hholds hlast houtcome =>
      rw [hgive rfl hstack, Errors.note_over hlast]
      exact within_put he _ (within_receive_over m.world hholds hbelow hlast houtcome)
  | returned hholds houtcome => exact absurd rfl (hinside _ rfl)
  | @unwinding _ failure frames hfailure hbrittle =>
      rw [Errors.note_panic hfailure]
      cases frames with
      | nil => exact absurd rfl (hinside _ rfl)
      | cons frame frames =>
          rw [hgive rfl hstack,
            Frame.receive_panic _ _ (hbrittle frame List.mem_cons_self) hfailure]
          exact within_put he _ ⟨frames, below, rfl, hbelow,
            .unwinding hfailure fun f hf => hbrittle f (List.mem_cons_of_mem _ hf)⟩

theorem Within.step_of_ne {i : Nat} (h : m.Within t l holds base me errors) (hi : i ≠ me)
    (hactor : m.actor? i ≠ some t) :
    (m.step i).Within t l holds base me (m.note me base.length i errors) := by
  obtain ⟨e, he, frames, below, hstack, hbelow, hstage⟩ := h
  have hnote : m.note me base.length i errors = errors := by simp [note, he, hi]
  have hkeeps : m.world.sync.Keeps t l (m.step i).world.sync :=
    ⟨fun howner => (keeps_lock hactor howner).1, fun howner => (keeps_lock hactor howner).2,
      keeps_list hactor⟩
  rw [hnote]
  exact ⟨e, executors_step_of_ne (Ne.symm hi) he, frames, below, hstack, hbelow,
    hstage.keep hkeeps⟩

/-- Whether the next step of executor `i` belongs to a run during the call that executor `me` has
made for the thread `t` with `height` frames on its stack: the call is not over yet, and nobody else
works on locks for its thread. -/
def isDuring (t : ThreadId) (me height : Nat) (m : Machine) (i : Nat) : Bool :=
  if i = me then (m.returned? me height).isNone else m.actor? i != some t

theorem Within.follow {moves : List Move} (h : m.Within t l holds base me errors)
    (hpos : 0 < holds) (hrun : m.along (isDuring t me base.length) moves) :
    (m.follow moves).Within t l holds base me (m.errors me base.length errors moves) := by
  induction moves generalizing m errors with
  | nil => exact h
  | cons move moves ih =>
      cases move with
      | step i =>
          simp only [along, Bool.and_eq_true] at hrun
          obtain ⟨hduring, hrun⟩ := hrun
          rw [isDuring] at hduring
          refine ih ?_ hrun
          split at hduring
          · next hi =>
            subst hi
            exact h.step_self hpos (by simpa using hduring)
          · next hi => exact h.step_of_ne hi (by simpa using hduring)
      | tick millis =>
          obtain ⟨e, he, hwithin⟩ := h
          exact ih ⟨e, he, hwithin⟩ hrun

theorem Within.of_returned {result : Option Error} (h : m.Within t l holds base me errors)
    (hresult : (m.returned? me base.length).bind Outcome.result? = some result) :
    m.world.sync.Holds t l holds ∧ result = errors.ended.or errors.raised.head? := by
  obtain ⟨e, he, frames, below, hstack, hbelow, hstage⟩ := h
  obtain ⟨outcome, houtcome, hresult⟩ := Option.bind_eq_some_iff.mp hresult
  obtain ⟨hcontrol, rfl⟩ := (returned?_eq_some he hstack hbelow).mp houtcome
  simp only [hcontrol] at hstage
  generalize hframes : ([] : List Frame) = frames at hstage
  cases hstage with
  | returned hholds hraised =>
      rw [hraised] at hresult
      exact ⟨hholds, (Option.some.inj hresult).symm⟩
  | @unwinding _ failure frames hfailure hbrittle =>
      cases failure with
      | error err => exact absurd rfl (hfailure err)
      | _ => cases hresult
  | suspended h habove => simp at hframes
  | _ => cases hframes

private theorem step_pause {pause : Pause} {thread mutex : String} (he : m.executors[me]? = some e)
    (hcall : e.control = .perform (.call (pause.op thread mutex))) :
    let t := (m.world.threadNamed thread).1
    let l := (m.world.threadAndLock thread mutex).2.1
    let base := .showing pause.showing :: e.stack
    ∃ (w : World) (next : Task), m.world.sync.Undisturbed w.sync ∧
      m.step me = m.put me e.current (match w.sync.checkOwned t l with
        | .error err => w.giveError base err
        | .ok () => next) ∧
      ((w.sync.lock l).owner = some t →
        next.Within t l (pause.holdsAfter (w.sync.lock l).holds) base {}) := by
  intro t l base
  have hnamed := m.world.undisturbed_threadAndLock thread mutex
  cases pause with
  | wait cv timeout =>
      let named := ((m.world.threadAndLock thread mutex).2.2.conditionNamed cv)
      refine ⟨named.2, ⟨named.2.updateThread t (·.dropWakeUp),
        .condition ⟨t, named.1, l, timeout.deadline named.2.clock⟩ .entering none, base⟩,
        hnamed.trans (World.undisturbed_conditionNamed _ cv), ?_, ?_⟩
      · simp only [step, he, hcall]
        rfl
      · exact fun howner => ⟨[], base, rfl, rfl, .waiting rfl rfl ⟨howner, rfl, rfl⟩⟩
  | sleep timeout =>
      let named := (m.world.threadAndLock thread mutex).2.2
      refine ⟨named, ⟨named.updateThread t (·.dropWakeUp), .releasing t l,
        .lyingDown t l timeout :: base⟩, hnamed, ?_, ?_⟩
      · simp only [step, he, hcall]
        rfl
      · exact fun howner => ⟨[_], base, rfl, rfl, .releasing howner rfl⟩

end Machine

/-- A condition wait or a sleep with a mutex never returns without the mutex. A call by a thread
that does not hold the mutex raises an error at once and disturbs nothing. Any other call, when it
returns after any run with a result or an error, leaves its thread with the mutex on its list and
with all of its holds, or with one after a sleep. It raises the error that ended the pause if there
was one, and otherwise the first one that an action raised while the mutex was taken again. -/
theorem pause_restores_holds (m : Machine) (me : Nat) (e : Executor) (pause : Pause)
    (thread mutex : String) (he : m.executors[me]? = some e)
    (hcall : e.control = .perform (.call (pause.op thread mutex))) :
    let t := (m.world.threadNamed thread).1
    let l := (m.world.threadAndLock thread mutex).2.1
    let lock := m.world.sync.lock l
    let height := e.stack.length + 1
    let begun := m.step me
    (lock.owner ≠ some t →
        (∃ err, begun.returned? me height = some (.error (.error err))) ∧
          m.world.sync.Undisturbed begun.world.sync) ∧
      (lock.owner = some t → lock.holds ≠ 0 → ∀ moves,
        begun.along (Machine.isDuring t me height) moves →
        let after := begun.follow moves
        let errors := begun.errors me height {} moves
        ∀ result, (after.returned? me height).bind Outcome.result? = some result →
          after.world.sync.Holds t l (pause.holdsAfter lock.holds) ∧
            result = errors.ended.or errors.raised.head?) := by
  intro t l lock height begun
  obtain ⟨w, next, hundisturbed, hstep, hwithin⟩ := Machine.step_pause he hcall
  have hlock : w.sync.lock l = lock := hundisturbed.lock l
  refine ⟨?_, ?_⟩
  · intro howner
    obtain ⟨err, herr⟩ : ∃ err, w.sync.checkOwned t l = .error err := by
      simp only [Sync.checkOwned, Sync.isHeld, Lock.isHeldBy, hlock, howner, beq_iff_eq, if_false]
      split <;> exact ⟨_, rfl⟩
    rw [herr] at hstep
    simp only at hstep
    simp only [begun, hstep]
    refine ⟨⟨err, ?_⟩, hundisturbed⟩
    simp [Machine.returned?, Machine.executors_put he, World.giveError, World.giveFailure,
      Executor.above, height]
  · intro howner hholds moves hrun after errors result hresult
    rw [hlock] at hwithin
    have hheld : w.sync.checkOwned t l = .ok () := by
      simp [Sync.checkOwned, Sync.isHeld, Lock.isHeldBy, hlock, howner]
    rw [hheld] at hstep
    have hbegun : begun.Within t l (pause.holdsAfter lock.holds)
        (.showing pause.showing :: e.stack) me {} := by
      simp only [begun, hstep]
      exact Machine.within_put he _ (hwithin howner)
    have hpos : 0 < pause.holdsAfter lock.holds := by
      cases pause with
      | wait cv timeout => exact UInt32.pos_iff_ne_zero.mpr hholds
      | sleep timeout => exact UInt32.zero_lt_one
    exact (hbegun.follow hpos hrun).of_returned hresult

/-- A thread waits with two holds of a mutex. Another one takes the mutex, signals the condition,
kills the waiter and lets it fail once more, and only then unlocks the mutex. -/
def harriedWait : Script where
  options := {}
  watched := []
  steps := [.mk false (.call (.lockInternal "main" "m")),
    .mk false (.call (.lockInternal "main" "m")),
    .mk false (.call (.spawn "other" none
      (.mk [.mk false (.call (.lock "other" "m")), .mk false (.mutex (.signal "c")),
        .mk false (.thread (.kill "main")),
        .mk false (.thread (.submit "main" "late" (.mk [] (some Cause.noBlock.error) none .null))),
        .mk false (.mutex (.unlock "other" "m"))] none none .null))),
    .mk false (.call (.wait "main" "m" "c" .forever))]

def harriedWaiter : Machine :=
  harriedWait.start.follow (List.replicate 13 (.step 0))

def harriedMoves : List Move :=
  List.replicate 4 (.step 0) ++ List.replicate 9 (.step 1) ++ List.replicate 9 (.step 0) ++
    List.replicate 3 (.step 1) ++ List.replicate 6 (.step 0) ++ List.replicate 4 (.step 1) ++
    List.replicate 4 (.step 0)

theorem pause_restores_holds_harried :
    (harriedWaiter.step 0).along (Machine.isDuring 0 0 3) harriedMoves ∧
      ((harriedWaiter.step 0).errors 0 3 {} harriedMoves).raised =
        [.killed, Cause.noBlock.error] ∧
      (((harriedWaiter.step 0).follow harriedMoves).returned? 0 3).bind Outcome.result? =
        some (some .killed) ∧
      ((harriedWaiter.step 0).follow harriedMoves).world.sync.Holds 0 0 2 := by
  obtain ⟨e, he, hcall, hheight⟩ : ∃ e, harriedWaiter.executors[0]? = some e ∧
      e.control = .perform (.call (.wait "main" "m" "c" .forever)) ∧ e.stack.length = 2 :=
    ⟨_, rfl, rfl, rfl⟩
  have hthread : (harriedWaiter.world.threadNamed "main").1 = 0 := by decide +kernel
  have hlock : (harriedWaiter.world.threadAndLock "main" "m").2.1 = 0 := by decide +kernel
  have howner : (harriedWaiter.world.sync.lock 0).owner = some 0 := by decide +kernel
  have hholds : (harriedWaiter.world.sync.lock 0).holds = 2 := by decide +kernel
  have hrun : (harriedWaiter.step 0).along (Machine.isDuring 0 0 3) harriedMoves := by
    decide +kernel
  have hreturned : (((harriedWaiter.step 0).follow harriedMoves).returned? 0 3).bind
      Outcome.result? = some (some .killed) := by decide +kernel
  obtain ⟨-, hheld⟩ :=
    pause_restores_holds harriedWaiter 0 e (.wait "c" .forever) "main" "m" he hcall
  rw [hthread, hlock, hheight, hholds] at hheld
  obtain ⟨hafter, -⟩ := hheld howner (by decide) harriedMoves hrun _ hreturned
  exact ⟨hrun, by decide +kernel, hreturned, hafter⟩

end Session

end RubyRuntime
