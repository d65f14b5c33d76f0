import RubyRuntime.Proofs.Queue.Conservation

/-!
# Closed queues

The main result is that closing a queue is final. A closed queue accepts nothing, whoever tries,
and gives what it holds to those that come for it, in order; once it is empty, every take is told
so at once. Every answer of a put or a take is justified by the queue and the clock as they are in
the critical section in which it is given.
-/
namespace RubyRuntime

variable {α : Type}

def Dealing.Seals (d : Dealing α) (before after : Bool) : Prop :=
  before → after ∧ d.accepted = []

theorem Dealing.Seals.of_eq {d : Dealing α} {before after : Bool} (hclosed : after = before)
    (haccepted : before → d.accepted = []) : d.Seals before after := by
  subst hclosed
  exact fun hbefore => ⟨hbefore, haccepted hbefore⟩

def Taken.Justified (closed late : Bool) (before after : List α) : Option (Taken α) → Prop
  | some (.item a) => before = a :: after
  | some .closed => closed ∧ before = []
  | none => closed = false ∧ before = [] ∧ late

def Offer.Justified (closed : Bool) (item : α) (before after : List α) (accepted : Bool) : Prop :=
  closed = !accepted ∧ (accepted → after = before ++ [item])

namespace UnboundedQueue

variable (queue : UnboundedQueue α)

theorem seals_offer (item : α) :
    ((queue.offer item).1.dealing item).Seals queue.closed (queue.offer item).2.closed := by
  intro hclosed
  simp [offer, add?, hclosed, Offer.dealing]

theorem seals_take (late : Bool) (ticket : Ticket) :
    (Dealing.ofTake (queue.take late ticket).1).Seals queue.closed
      (queue.take late ticket).2.closed := by
  intro hclosed
  unfold take
  split <;> simp [hclosed, Dealing.ofTake, Dealing.ofPoll]

theorem Exchange.seals {queue queue' : UnboundedQueue α} {d : Dealing α}
    (h : queue.Exchange d queue') : d.Seals queue.closed queue'.closed := by
  cases h with
  | add h =>
      intro hclosed
      simp [add?, hclosed] at h
  | addAll h =>
      intro hclosed
      simp [addAll?, hclosed] at h
  | offer item => exact queue.seals_offer item
  | take late ticket => exact queue.seals_take late ticket
  | poll | clear => exact .of_eq rfl fun _ => rfl
  | close => exact fun _ => ⟨rfl, rfl⟩

theorem justified_take {late : Bool} {ticket : Ticket} {taken : Option (Taken α)}
    (h : (queue.take late ticket).1 = .done taken) :
    Taken.Justified queue.closed late queue.items (queue.take late ticket).2.items taken := by
  unfold take at h ⊢
  split at h
  · next hitems =>
    cases h
    exact hitems
  · next hitems =>
    split at h
    · next hclosed =>
      cases h
      exact ⟨hclosed, hitems⟩
    · next hopen =>
      split at h
      · next hlate =>
        cases h
        exact ⟨by simpa using hopen, hitems, hlate⟩
      · cases h

end UnboundedQueue

namespace Fifo

variable (fifo : Fifo α)

theorem justified_take {late : Bool} {taken : Option (Taken α)}
    (h : (fifo.take late).1 = .done taken) :
    Taken.Justified fifo.closed late fifo.items (fifo.take late).2.items taken := by
  unfold take at h ⊢
  split at h
  · next hitems =>
    cases h
    exact hitems
  · next hitems =>
    split at h
    · next hclosed =>
      cases h
      exact ⟨hclosed, hitems⟩
    · next hopen =>
      split at h
      · next hlate =>
        cases h
        exact ⟨by simpa using hopen, hitems, hlate⟩
      · cases h

theorem justified_put {item : α} {accepted : Bool} (h : (fifo.put item).1 = .done accepted) :
    Offer.Justified fifo.closed item fifo.items (fifo.put item).2.items accepted := by
  unfold put at h ⊢
  split at h
  · next hclosed =>
    cases h
    exact ⟨hclosed, nofun⟩
  · next hopen =>
    split at h
    · next hroom =>
      cases h
      refine ⟨by simpa using hopen, fun _ => ?_⟩
      simp [hopen, hroom]
    · cases h

end Fifo

namespace BoundedQueue

variable {queue queue' : BoundedQueue α}

theorem seals_offer (queue : BoundedQueue α) (item : α) :
    ((queue.offer item).1.dealing item).Seals queue.closed (queue.offer item).2.closed := by
  intro hclosed
  simp [offer, hclosed, Offer.dealing]

theorem seals_put (queue : BoundedQueue α) (item : α) (ticket : Ticket) :
    (Dealing.ofPut item (queue.put item ticket).1).Seals queue.closed
      (queue.put item ticket).2.closed := by
  intro hclosed
  simp [put, offer, hclosed, Dealing.ofPut]

theorem closed_poll (queue : BoundedQueue α) : queue.poll.2.closed = queue.closed := by
  unfold poll
  split <;> rfl

theorem seals_take (queue : BoundedQueue α) (late : Bool) (ticket : Ticket) :
    (Dealing.ofTake (queue.take late ticket).1).Seals queue.closed
      (queue.take late ticket).2.closed := by
  have hpoll := queue.closed_poll
  intro hclosed
  unfold take
  split
  · next item queue' heq =>
    rw [heq] at hpoll
    exact ⟨hpoll.trans hclosed, rfl⟩
  · next queue' heq =>
    rw [heq] at hpoll
    have hclosed' : queue'.closed = true := hpoll.trans hclosed
    simp [hclosed', Dealing.ofTake, Dealing.ofPoll]

theorem closed_changeCapacity {slotBytes : Nat} {requested : Int}
    (h : queue.changeCapacity? slotBytes requested = .ok queue') :
    queue'.closed = queue.closed := by
  unfold changeCapacity? at h
  split at h
  · cases h
  · split at h
    · cases h
      rfl
    · cases h

theorem Exchange.seals {d : Dealing α} (h : queue.Exchange d queue') :
    d.Seals queue.closed queue'.closed := by
  cases h with
  | offer item => exact queue.seals_offer item
  | put item ticket => exact queue.seals_put item ticket
  | take late ticket => exact queue.seals_take late ticket
  | changeCapacity h => exact .of_eq (closed_changeCapacity h) fun _ => rfl
  | poll => exact .of_eq queue.closed_poll fun _ => rfl
  | clear => exact .of_eq rfl fun _ => rfl
  | close => exact fun _ => ⟨rfl, rfl⟩

theorem Sound.justified_take (hsound : queue.Sound) {late : Bool} {ticket : Ticket}
    {taken : Option (Taken α)} (h : (queue.take late ticket).1 = .done taken) :
    Taken.Justified queue.closed late queue.contents (queue.take late ticket).2.contents taken := by
  obtain ⟨fifo, himplements⟩ := hsound
  obtain ⟨hanswer, hafter⟩ := himplements.take late ticket
  rw [contents, contents, himplements.ring.toList_eq, hafter.ring.toList_eq,
    himplements.closed_eq]
  exact fifo.justified_take (hanswer.symm.trans h)

theorem Sound.justified_put (hsound : queue.Sound) {item : α} {ticket : Ticket} {accepted : Bool}
    (h : (queue.put item ticket).1 = .done accepted) :
    Offer.Justified queue.closed item queue.contents (queue.put item ticket).2.contents
      accepted := by
  obtain ⟨fifo, himplements⟩ := hsound
  obtain ⟨hanswer, hafter⟩ := himplements.put item ticket
  rw [contents, contents, himplements.ring.toList_eq, hafter.ring.toList_eq,
    himplements.closed_eq]
  exact fifo.justified_put (hanswer.symm.trans h)

end BoundedQueue

namespace Session

namespace World

def Seals (w : World) (d : QueueRef → Dealing Value) (w' : World) : Prop :=
  ∀ r, (d r).Seals (w.isClosed r) (w'.isClosed r)

variable {w w' w'' : World} {d : QueueRef → Dealing Value}

theorem Seals.of_same (h : w'.Seals d w'') (hsame : ∀ r, w'.isClosed r = w.isClosed r) :
    w.Seals d w'' := by
  intro r
  rw [← hsame r]
  exact h r

theorem seals_only {r : QueueRef} {dealt : Dealing Value}
    (h : dealt.Seals (w.isClosed r) (w'.isClosed r))
    (hothers : ∀ k, k ≠ r → w'.isClosed k = w.isClosed k) : w.Seals (r.only dealt) w' := by
  intro k
  by_cases hk : k = r
  · subst hk
    rwa [QueueRef.only_self]
  · rw [QueueRef.only_of_ne dealt hk]
    exact .of_eq (hothers k hk) fun _ => rfl

theorem seals_setQueue {q : Nat} {queue : UnboundedQueue Value} {dealt : Dealing Value}
    (h : dealt.Seals (w.queue q).closed queue.closed) :
    w.Seals (QueueRef.only (.unbounded q) dealt) (w.setQueue q queue) := by
  refine seals_only ?_ fun k hk => ?_
  · rw [isClosed_setQueue, if_pos rfl]
    exact h
  · rw [isClosed_setQueue, if_neg hk]

theorem seals_setBounded {q : Nat} {queue : BoundedQueue Value} {dealt : Dealing Value}
    (h : dealt.Seals (w.boundedQueue q).closed queue.closed) :
    w.Seals (QueueRef.only (.bounded q) dealt) (w.setBounded q queue) := by
  refine seals_only ?_ fun k hk => ?_
  · rw [isClosed_setBounded, if_pos rfl]
    exact h
  · rw [isClosed_setBounded, if_neg hk]

theorem seals_append {queue : BoundedQueue Value} (hqueues : w'.queues = w.queues)
    (hbounded : w'.bounded = w.bounded ++ [queue]) : w.Seals (fun _ => {}) w' := by
  intro r
  cases r with
  | unbounded q =>
      refine .of_eq ?_ fun _ => rfl
      rw [isClosed, isClosed, World.queue, World.queue, hqueues]
  | bounded q =>
      intro hclosed
      by_cases hlt : q < w.bounded.length
      · have hsame : w'.boundedQueue q = w.boundedQueue q := by
          rw [boundedQueue, boundedQueue, hbounded, List.getElem?_append_left hlt]
        rw [isClosed, hsame]
        exact ⟨hclosed, rfl⟩
      · simp [isClosed, boundedQueue, List.getElem?_eq_none (Nat.not_lt.mp hlt),
          unmadeBounded] at hclosed

theorem Exchange.seals (h : w.Exchange d w') : w.Seals d w' := by
  cases h with
  | nothing hsame => exact fun r => .of_eq (hsame.closed r) fun _ => rfl
  | unbounded hsame h => exact (seals_setQueue h.seals).of_same hsame.closed
  | bounded hsame h => exact (seals_setBounded h.seals).of_same hsame.closed
  | creates hsame h hqueues hbounded => exact (seals_append hqueues hbounded).of_same hsame.closed

end World

namespace Wait

def deadline? : Wait → Option Nat
  | take _ _ deadline | boundedTake _ _ deadline => deadline
  | _ => none

def offered : Wait → List Value
  | put _ _ item => [item]
  | _ => []

/-- Whether the answer of a put or a take is justified by the queue and the clock in the world `w`
in which its critical section is entered, and by what this makes of the queue. -/
def Justifies (wait : Wait) (r : QueueRef) (w w' : World) : Yield → Prop
  | .taken (some (.item v)) => w.contents r = v :: w'.contents r
  | .taken (some .closed) => w.isClosed r ∧ w.contents r = []
  | .taken none => w.isClosed r = false ∧ w.contents r = [] ∧
    ∃ deadline, wait.deadline? = some deadline ∧ deadline ≤ w.clock
  | .flag accepted => w.isClosed r = !accepted ∧
    (accepted → w'.contents r = w.contents r ++ wait.offered)
  | _ => False

variable {wait : Wait} {r : QueueRef} {w w' : World}

theorem Justifies.of_same {w'' : World} {y : Yield} (h : wait.Justifies r w' w'' y)
    (hsame : w.SameSight w') : wait.Justifies r w w'' y := by
  unfold Justifies at h ⊢
  rw [hsame.contents, hsame.closed, hsame.clock] at h
  exact h

theorem justifies_taken {taken : Option (Taken Value)}
    (h : Taken.Justified (w.isClosed r) (isLate w.clock wait.deadline?) (w.contents r)
      (w'.contents r) taken) : wait.Justifies r w w' (.taken taken) := by
  rcases taken with _ | _ | _
  · obtain ⟨hopen, hempty, hlate⟩ := h
    refine ⟨hopen, hempty, ?_⟩
    cases hdeadline : wait.deadline? with
    | none => simp [isLate, hdeadline] at hlate
    | some deadline => exact ⟨deadline, rfl, by simpa [isLate, hdeadline] using hlate⟩
  · exact h
  · exact h

theorem justifies_attempt (hr : wait.queue? = some r) (hw : w.QueuesSound) {ticket : Ticket}
    {y : Yield} (h : (wait.attempt ticket w).2 = .done y) :
    wait.Justifies r w (wait.attempt ticket w).1 y := by
  cases wait with
  | park | acquire | scripted => cases hr
  | take t q deadline =>
      cases hr
      simp only [attempt] at h ⊢
      split at h
      · next result queue htake =>
        cases h
        have hjustified := (w.queue q).justified_take (congrArg Prod.fst htake)
        refine justifies_taken ?_
        rw [World.contents, World.contents, World.queue_setQueue, if_pos rfl]
        rw [htake] at hjustified
        exact hjustified
      · cases h
  | boundedTake t q deadline =>
      cases hr
      simp only [attempt] at h ⊢
      split at h
      · next result queue htake =>
        cases h
        have hjustified := (hw q).justified_take (congrArg Prod.fst htake)
        refine justifies_taken ?_
        rw [World.contents, World.contents, World.boundedQueue_setBounded, if_pos rfl]
        rw [htake] at hjustified
        exact hjustified
      · cases h
  | put t q item =>
      cases hr
      simp only [attempt] at h ⊢
      split at h
      · next accepted queue hput =>
        cases h
        have hjustified := (hw q).justified_put (congrArg Prod.fst hput)
        rw [hput] at hjustified
        refine ⟨hjustified.1, fun haccepted => ?_⟩
        rw [World.contents, World.boundedQueue_setBounded, if_pos rfl]
        exact hjustified.2 haccepted
      · cases h

theorem justifies_resume (hr : wait.queue? = some r) (hw : w.QueuesSound) {old ticket : Ticket}
    {y : Yield} (h : (wait.resume old ticket w).2 = .done y) :
    wait.Justifies r w (wait.resume old ticket w).1 y := by
  obtain ⟨w', hsame, hresume⟩ := resume_eq (isQueueing_of_queue? hr) old ticket w
  rw [hresume] at h ⊢
  refine Justifies.of_same ?_ hsame
  unfold unlessInterrupted at h ⊢
  split at h
  · cases h
  · next hcalm =>
    rw [if_neg hcalm]
    exact justifies_attempt hr (hsame.sound hw) h

end Wait

def Move.isBy (me : Nat) : Move → Bool
  | .step i => i = me
  | .tick _ => false

def Wait.isTake : Wait → Bool
  | .take _ _ _ | .boundedTake _ _ _ => true
  | _ => false

/-- A take from a closed queue that is empty does not wait and notices no interrupt. -/
theorem Wait.attempt_drained {wait : Wait} {r : QueueRef} {w : World} (hr : wait.queue? = some r)
    (htake : wait.isTake) (hw : w.QueuesSound) (hclosed : w.isClosed r)
    (hempty : w.contents r = []) (ticket : Ticket) :
    ∃ w', wait.attempt ticket w = (w', .done (.taken (some .closed))) := by
  cases wait with
  | park | acquire | put | scripted => cases htake
  | take t q deadline =>
      cases hr
      rw [World.contents] at hempty
      rw [World.isClosed] at hclosed
      simp [attempt, UnboundedQueue.take, hempty, hclosed]
  | boundedTake t q deadline =>
      cases hr
      obtain ⟨fifo, himplements⟩ := hw q
      rw [World.contents, BoundedQueue.contents, himplements.ring.toList_eq] at hempty
      rw [World.isClosed, himplements.closed_eq] at hclosed
      obtain ⟨hanswer, -⟩ := himplements.take (isLate w.clock deadline) ticket
      have hdone : ((w.boundedQueue q).take (isLate w.clock deadline) ticket).1 =
          .done (some .closed) := by
        rw [hanswer]
        simp [Fifo.take, hempty, hclosed]
      simp only [attempt]
      split
      · next result queue heq =>
        rw [heq] at hdone
        cases hdone
        exact ⟨_, rfl⟩
      · next queue heq =>
        rw [heq] at hdone
        cases hdone

def CallOp.timeout : CallOp Body Step → Timeout
  | .pollTimeout _ _ timeout | .popTimeout _ _ timeout | .boundedPollTimeout _ _ timeout
  | .boundedPopTimeout _ _ timeout => timeout
  | _ => .forever

/-- Whether a step drops all items of a queue. -/
def QueueOp.clears (w : World) (r : QueueRef) : QueueOp → Bool
  | .clear q => QueueRef.unbounded (w.queueNamed q).1 = r
  | .boundedClear s => (w.boundedNamed? s).map QueueRef.bounded = some r
  | _ => false

def QueueOp.given (w : World) (r : QueueRef) : QueueOp → List Value
  | .clear _ | .boundedClear _ => []
  | op => (op.dealing w r).removed

theorem QueueOp.given_eq {op : QueueOp} {w : World} {r : QueueRef} (h : op.clears w r = false) :
    op.given w r = (op.dealing w r).removed := by
  cases op with
  | clear q =>
      have hother : r ≠ .unbounded (w.queueNamed q).1 := by
        rintro rfl
        simp [clears] at h
      simp [given, dealing, QueueRef.only, hother]
  | boundedClear s =>
      cases hq : w.boundedNamed? s with
      | none => simp [given, dealing, World.dealingBounded, hq]
      | some q =>
          have hother : r ≠ .bounded q := by
            rintro rfl
            simp [clears, hq] at h
          simp [given, dealing, World.dealingBounded, hq, QueueRef.only, hother]
  | _ => rfl

namespace Machine

variable {m : Machine} {me : Nat} {e : Executor} {r : QueueRef} {wait : Wait}
  {base below : List Frame}

def clears (r : QueueRef) (m : Machine) (me : Nat) : Bool :=
  m.executors[me]?.any fun e =>
    match e.control with
    | .perform (.queue op) => op.clears m.world r
    | _ => false

def gives (r : QueueRef) (m : Machine) (me : Nat) : List Value :=
  match m.executors[me]? with
  | some e =>
    match e.control with
    | .perform (.queue op) => op.given m.world r
    | _ => (e.dealing m.world r).removed
  | none => []

theorem seals_step (m : Machine) (me : Nat) : m.world.Seals (m.dealing me) (m.step me).world :=
  (m.exchange_step me).seals

theorem sealed_follow (hclosed : m.world.isClosed r) (moves : List Move) :
    (m.follow moves).world.isClosed r ∧ m.accepted r moves = [] := by
  induction moves generalizing m with
  | nil => exact ⟨hclosed, rfl⟩
  | cons move moves ih =>
      cases move with
      | step me =>
          obtain ⟨hclosed', haccepted⟩ := m.seals_step me r hclosed
          obtain ⟨hlast, hrest⟩ := ih hclosed'
          refine ⟨hlast, ?_⟩
          rw [accepted, log, haccepted]
          exact hrest
      | tick millis =>
          have hclosed' : (m.tick millis).world.isClosed r := by
            cases r <;> exact hclosed
          exact ih hclosed'

theorem gives_eq (h : m.clears r me = false) : m.gives r me = (m.dealing me r).removed := by
  cases he : m.executors[me]? with
  | none => simp [gives, dealing, he]
  | some e =>
      simp only [clears, he, Option.any_some] at h
      simp only [gives, dealing, he]
      split at h
      · next op hcontrol =>
        simp only [Executor.dealing, hcontrol]
        exact QueueOp.given_eq h
      · rfl

/-- Unless it is cleared, a queue gives away what it loses. -/
theorem given_eq {moves : List Move} (h : m.along (fun m i => !m.clears r i) moves) :
    m.log (gives r) moves = m.removed r moves := by
  induction moves generalizing m with
  | nil => rfl
  | cons move moves ih =>
      cases move with
      | step i =>
          simp only [along, Bool.and_eq_true, Bool.not_eq_true'] at h
          rw [removed, log, log, gives_eq h.1, ih h.2]
          rfl
      | tick millis => exact ih (m := m.tick millis) h

def Pends (wait : Wait) (base : List Frame) (me : Nat) (m : Machine) : Prop :=
  ∃ e, m.executors[me]? = some e ∧
    ((∃ previous below, e.stack = .blocking wait previous :: below ∧
        below.map Frame.shape = base.map Frame.shape ∧
        (e.control = .attempt wait ∨ (∃ ticket wakeAt, e.control = .parked wait ticket wakeAt) ∨
          e.control = .interrupted wait)) ∨
      Above (.polled wait) base e.stack)

/-- A call that executor `me` has made on `base` has its outcome, which it hands on or has
returned. -/
def Answers (base : List Frame) (me : Nat) (outcome : Outcome) (m : Machine) : Prop :=
  ∃ e, m.executors[me]? = some e ∧ e.control = .give outcome ∧
    (e.stack.map Frame.shape = base.map Frame.shape ∨
      ∃ wait previous below, e.stack = .blocking wait previous :: below ∧
        below.map Frame.shape = base.map Frame.shape)

theorem Pends.returned (h : m.Pends wait base me) : m.returned? me base.length = none := by
  obtain ⟨e, he, ⟨previous, below, hstack, hbelow, -⟩ | habove⟩ := h
  · exact returned?_of_frame [] he hstack hbelow
  · exact returned?_of_above he habove

theorem Answers.returned {outcome outcome' : Outcome} (h : m.Answers base me outcome)
    (hreturned : m.returned? me base.length = some outcome') : outcome' = outcome := by
  obtain ⟨e, he, hcontrol, hstack | ⟨wait, previous, below, hstack, hbelow⟩⟩ := h
  · rw [returned?_of_base he hstack hcontrol] at hreturned
    exact (Option.some.inj hreturned).symm
  · rw [returned?_of_frame [] he hstack hbelow] at hreturned
    cases hreturned

theorem Answers.follow {outcome : Outcome} {moves : List Move} (h : m.Answers base me outcome)
    (hrun : m.along (isOpen me base.length) moves) :
    (m.follow moves).Answers base me outcome := by
  refine follow_keeps (p := isOpen me base.length) ?_ (fun _ _ h => h) hrun h
  rintro m i hopen ⟨e, he, hcontrol, hstack⟩
  by_cases hi : i = me
  · subst hi
    rcases hstack with hstack | ⟨wait, previous, below, hstack, hbelow⟩
    · simp [isOpen, returned?_of_base he hstack hcontrol] at hopen
    · rw [step_give he hcontrol hstack]
      cases outcome <;> exact ⟨_, executors_put he _ _, rfl, .inl hbelow⟩
  · exact ⟨e, executors_step_of_ne (Ne.symm hi) he, hcontrol, hstack⟩

private theorem pends_afterAttempt {w : World} {progress : Progress} {previous : Status}
    (he : m.executors[me]? = some e) (hstack : e.stack = .blocking wait previous :: below)
    (hbelow : below.map Frame.shape = base.map Frame.shape) (hanswers : wait.Answers r progress)
    (hjustifies : ∀ y, progress = .done y → wait.Justifies r m.world w y) :
    (m.put me e.current (afterAttempt e.stack w progress)).Pends wait base me ∨
      ∃ y, (m.put me e.current (afterAttempt e.stack w progress)).Answers base me (.ok y) ∧
        wait.Justifies r m.world
          (m.put me e.current (afterAttempt e.stack w progress)).world y := by
  rcases hanswers with ⟨y, rfl, -⟩ | ⟨ticket, wakeAt, rfl⟩ | rfl
  · refine .inr ⟨y, ⟨_, executors_put he _ _, rfl, .inr ?_⟩, hjustifies y rfl⟩
    exact ⟨wait, previous, below, hstack, hbelow⟩
  · exact .inl ⟨_, executors_put he _ _, .inl ⟨previous, below, hstack, hbelow,
      .inr (.inl ⟨ticket, wakeAt, rfl⟩)⟩⟩
  · exact .inl ⟨_, executors_put he _ _, .inl ⟨previous, below, hstack, hbelow,
      .inr (.inr rfl)⟩⟩

theorem Pends.step_self (h : m.Pends wait base me) (hr : wait.queue? = some r)
    (hm : m.world.QueuesSound) :
    (m.step me).Pends wait base me ∨
      (∃ y, (m.step me).Answers base me (.ok y) ∧
        wait.Justifies r m.world (m.step me).world y) ∨
      ∃ failure, (m.step me).Answers base me (.error failure) := by
  have hdraw := m.world.sameSight_drawTicket
  have hsound := hdraw.sound hm
  obtain ⟨e, he, ⟨previous, below, hstack, hbelow, hcontrol⟩ | habove⟩ := h
  · rcases hcontrol with hcontrol | ⟨ticket, wakeAt, hcontrol⟩ | hcontrol
    · have hnote : noteAttempt m.world wait e.stack = e.stack := by
        cases wait <;> first | rfl | cases hr
      simp only [step, he, hcontrol, hnote]
      exact (pends_afterAttempt he hstack hbelow (Wait.answers_attempt hr _ _)
        fun y hy => (Wait.justifies_attempt hr hsound hy).of_same hdraw).imp_right .inl
    · simp only [step, he, hcontrol]
      exact (pends_afterAttempt he hstack hbelow (Wait.answers_resume hr _ _ _)
        fun y hy => (Wait.justifies_resume hr hsound hy).of_same hdraw).imp_right .inl
    · simp only [step, he, hcontrol, hstack]
      refine .inl ⟨_, executors_put he _ _, .inr ?_⟩
      exact (World.launched_startPoll _ _ _).above (by simp) hbelow
  · rcases handed_or_above he rfl habove with
      ⟨outcome, below, -, hcontrol, hstack, hbelow⟩ | ⟨-, e', he', habove'⟩
    · have hresumed : resumed wait below = below := by
        cases wait <;> first | rfl | cases hr
      have hfails : ∀ (w : World) (failure : Failure),
          (m.put me e.current (w.giveFailure below failure)).Answers base me (.error failure) :=
        fun w failure => ⟨_, executors_put he _ _, rfl, .inl hbelow⟩
      rw [step_give he hcontrol hstack]
      rcases outcome with (err | _ | _ | _) | y
      · simp only [Frame.receive, hresumed]
        exact .inr (.inr ⟨_, hfails _ _⟩)
      · exact .inr (.inr ⟨_, hfails _ _⟩)
      · exact .inr (.inr ⟨_, hfails _ _⟩)
      · exact .inr (.inr ⟨_, hfails _ _⟩)
      · simp only [Frame.receive, hresumed]
        exact .inl ⟨_, executors_put he _ _, .inl ⟨_, below, rfl, hbelow, .inl rfl⟩⟩
    · exact .inl ⟨e', he', .inr habove'⟩

theorem drained_follow (hm : m.world.QueuesSound) (hclosed : m.world.isClosed r)
    (hempty : m.world.contents r = []) (moves : List Move) :
    (m.follow moves).world.contents r = [] := by
  have hcontents := contents_follow hm r moves
  rw [hempty, (sealed_follow hclosed moves).2] at hcontents
  exact (List.append_eq_nil_iff.mp hcontents.symm).2

/-- After how many steps of executor `me` the take that it has made on `base` will have told that
the queue is closed. -/
def TellsIn (wait : Wait) (base : List Frame) (me : Nat) (m : Machine) (n : Nat) : Prop :=
  ∃ e, m.executors[me]? = some e ∧
    match n with
    | 0 => e.control = .give (.ok (.taken (some .closed))) ∧ e.stack = base
    | 1 => e.control = .give (.ok (.taken (some .closed))) ∧
      ∃ previous, e.stack = .blocking wait previous :: base
    | 2 => e.control = .attempt wait ∧ ∃ previous, e.stack = .blocking wait previous :: base
    | _ => False

theorem TellsIn.step_self {n : Nat} (h : m.TellsIn wait base me (n + 1))
    (hr : wait.queue? = some r) (htake : wait.isTake) (hm : m.world.QueuesSound)
    (hclosed : m.world.isClosed r) (hempty : m.world.contents r = []) :
    (m.step me).TellsIn wait base me n := by
  obtain ⟨e, he, hstage⟩ := h
  match n with
  | 0 =>
      obtain ⟨hcontrol, previous, hstack⟩ := hstage
      rw [step_give he hcontrol hstack]
      exact ⟨_, executors_put he _ _, rfl, rfl⟩
  | 1 =>
      obtain ⟨hcontrol, previous, hstack⟩ := hstage
      have hnote : noteAttempt m.world wait e.stack = e.stack := by
        cases wait <;> first | rfl | cases hr
      have hdraw := m.world.sameSight_drawTicket
      obtain ⟨w, hattempt⟩ := Wait.attempt_drained hr htake (hdraw.sound hm)
        ((hdraw.closed r).trans hclosed) ((hdraw.contents r).trans hempty)
        m.world.drawTicket.1
      simp only [step, he, hcontrol, hnote, hattempt]
      exact ⟨_, executors_put he _ _, rfl, previous, hstack⟩
  | _ + 2 => cases hstage

theorem TellsIn.follow {n : Nat} {moves : List Move} (h : m.TellsIn wait base me n)
    (hr : wait.queue? = some r) (htake : wait.isTake) (hm : m.world.QueuesSound)
    (hclosed : m.world.isClosed r) (hempty : m.world.contents r = [])
    (hsteps : moves.countP (Move.isBy me) = n) : (m.follow moves).TellsIn wait base me 0 := by
  induction moves generalizing m n with
  | nil =>
      subst hsteps
      exact h
  | cons move moves ih =>
      cases move with
      | tick millis =>
          have hclosed' : (m.tick millis).world.isClosed r := by cases r <;> exact hclosed
          have hempty' : (m.tick millis).world.contents r = [] := by cases r <;> exact hempty
          exact ih h hm hclosed' hempty' hsteps
      | step i =>
          have hsound := (trades_step hm i).sound
          have hclosed' := (sealed_follow hclosed [.step i]).1
          have hempty' := drained_follow hm hclosed hempty [.step i]
          by_cases hi : i = me
          · subst hi
            cases n with
            | zero => simp [Move.isBy] at hsteps
            | succ n =>
                refine ih (h.step_self hr htake hm hclosed hempty) hsound hclosed' hempty' ?_
                simpa [Move.isBy] using hsteps
          · obtain ⟨e, he, hstage⟩ := h
            refine ih ⟨e, executors_step_of_ne (Ne.symm hi) he, hstage⟩ hsound hclosed' hempty' ?_
            simpa [Move.isBy, hi] using hsteps

end Machine

end Session

end RubyRuntime
