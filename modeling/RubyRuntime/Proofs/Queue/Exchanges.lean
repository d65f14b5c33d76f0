import RubyRuntime.Proofs.Queue.Bounded
import RubyRuntime.Proofs.Session.Transfers

/-!
# What steps exchange with queues

A critical section of a queue may accept items and remove items. What it has accepted and removed
shows in its answer: an add, an offer or a put that has succeeded has accepted its items, a take or
a poll has removed the item that it gives, and clearing a queue removes everything. A step of a
session enters one such section at most. Whatever holds of all of them holds of every step.
-/
namespace RubyRuntime

variable {α : Type}

/-- The items that a queue has accepted, and those that it has given or dropped. -/
@[ext] structure Dealing (α : Type) where
  accepted : List α := []
  removed : List α := []

def Offer.dealing (item : α) : Offer α → Dealing α
  | success => { accepted := [item] }
  | full _ | closed _ => {}

def Dealing.ofAdd (items : List α) (succeeded : Bool) : Dealing α :=
  { accepted := if succeeded then items else [] }

def Dealing.ofPut (item : α) : Attempt Bool → Dealing α
  | .done true => { accepted := [item] }
  | .done false | .park => {}

def Dealing.ofPoll (item : Option α) : Dealing α :=
  { removed := item.toList }

def Dealing.ofTake : Attempt (Option (Taken α)) → Dealing α
  | .done taken => .ofPoll (taken.bind Taken.item?)
  | .park => {}

inductive UnboundedQueue.Exchange (queue : UnboundedQueue α) :
    Dealing α → UnboundedQueue α → Prop where
  | add {item : α} {queue' : UnboundedQueue α} (h : queue.add? item = some queue') :
    Exchange queue (.ofAdd [item] true) queue'
  | addAll {items : List α} {queue' : UnboundedQueue α} (h : queue.addAll? items = some queue') :
    Exchange queue (.ofAdd items true) queue'
  | offer (item : α) : Exchange queue ((queue.offer item).1.dealing item) (queue.offer item).2
  | poll : Exchange queue (.ofPoll queue.poll.1) queue.poll.2
  | take (late : Bool) (ticket : Ticket) :
    Exchange queue (.ofTake (queue.take late ticket).1) (queue.take late ticket).2
  | clear : Exchange queue { removed := queue.items } queue.clear
  | close : Exchange queue {} queue.close

inductive BoundedQueue.Exchange (queue : BoundedQueue α) :
    Dealing α → BoundedQueue α → Prop where
  | offer (item : α) : Exchange queue ((queue.offer item).1.dealing item) (queue.offer item).2
  | poll : Exchange queue (.ofPoll queue.poll.1) queue.poll.2
  | put (item : α) (ticket : Ticket) :
    Exchange queue (.ofPut item (queue.put item ticket).1) (queue.put item ticket).2
  | take (late : Bool) (ticket : Ticket) :
    Exchange queue (.ofTake (queue.take late ticket).1) (queue.take late ticket).2
  | changeCapacity {slotBytes : Nat} {requested : Int} {queue' : BoundedQueue α}
    (h : queue.changeCapacity? slotBytes requested = .ok queue') : Exchange queue {} queue'
  | clear : Exchange queue { removed := queue.contents } queue.clear
  | close : Exchange queue {} queue.close

namespace Session

inductive QueueRef where
  | unbounded (q : Nat)
  | bounded (q : Nat)
  deriving DecidableEq

def QueueRef.only (r : QueueRef) (d : Dealing Value) (other : QueueRef) : Dealing Value :=
  if other = r then d else {}

@[simp] theorem QueueRef.only_self (r : QueueRef) (d : Dealing Value) : r.only d r = d :=
  if_pos rfl

theorem QueueRef.only_of_ne {r other : QueueRef} (d : Dealing Value) (h : other ≠ r) :
    r.only d other = {} :=
  if_neg h

@[simp] theorem QueueRef.only_nothing (r : QueueRef) : r.only {} = fun _ => {} := by
  funext other
  simp [only]

namespace World

def isClosed (w : World) : QueueRef → Bool
  | .unbounded q => (w.queue q).closed
  | .bounded q => (w.boundedQueue q).closed

/-- All queues have the same items and the same room, and are open or closed as before. -/
structure SameItems (w w' : World) : Prop where
  items : ∀ q, (w'.queue q).items = (w.queue q).items
  ring : ∀ q, (w'.boundedQueue q).ring = (w.boundedQueue q).ring
  capacity : ∀ q, (w'.boundedQueue q).capacity = (w.boundedQueue q).capacity
  closed : ∀ r, w'.isClosed r = w.isClosed r

structure SameSight (w w' : World) : Prop extends SameItems w w' where
  clock : w'.clock = w.clock

variable {w w' w'' : World} {d : QueueRef → Dealing Value}

theorem SameQueues.isClosed (h : w.SameQueues w') (r : QueueRef) :
    w'.isClosed r = w.isClosed r := by
  cases r with
  | unbounded q => rw [World.isClosed, World.isClosed, h.queue q]
  | bounded q => rw [World.isClosed, World.isClosed, h.bounded q]

theorem SameQueues.sameItems (h : w.SameQueues w') : w.SameItems w' :=
  ⟨fun q => by rw [h.queue q], fun q => by rw [h.bounded q], fun q => by rw [h.bounded q],
    h.isClosed⟩

theorem SameItems.trans (h : w.SameItems w') (h' : w'.SameItems w'') : w.SameItems w'' where
  items q := (h'.items q).trans (h.items q)
  ring q := (h'.ring q).trans (h.ring q)
  capacity q := (h'.capacity q).trans (h.capacity q)
  closed r := (h'.closed r).trans (h.closed r)

theorem sameSight_drawTicket (w : World) : w.SameSight w.drawTicket.2 := by
  refine ⟨⟨fun _ => rfl, fun _ => rfl, fun _ => rfl, fun r => ?_⟩, rfl⟩
  cases r <;> rfl

theorem queue_setQueue (w : World) (q k : Nat) (queue : UnboundedQueue Value) :
    (w.setQueue q queue).queue k = if q = k then queue else w.queue k :=
  getD_changeEntry _ _ _ _ _

theorem boundedQueue_setBounded (w : World) (q k : Nat) (queue : BoundedQueue Value) :
    (w.setBounded q queue).boundedQueue k = if q = k then queue else w.boundedQueue k :=
  getD_changeEntry _ _ _ _ _

theorem isClosed_setQueue (w : World) (q : Nat) (queue : UnboundedQueue Value) (r : QueueRef) :
    (w.setQueue q queue).isClosed r = if r = .unbounded q then queue.closed else w.isClosed r := by
  cases r with
  | bounded k => rfl
  | unbounded k =>
      simp only [isClosed, queue_setQueue, QueueRef.unbounded.injEq, eq_comm (a := k)]
      split <;> rfl

theorem isClosed_setBounded (w : World) (q : Nat) (queue : BoundedQueue Value) (r : QueueRef) :
    (w.setBounded q queue).isClosed r = if r = .bounded q then queue.closed else w.isClosed r := by
  cases r with
  | unbounded k => rfl
  | bounded k =>
      simp only [isClosed, boundedQueue_setBounded, QueueRef.bounded.injEq, eq_comm (a := k)]
      split <;> rfl

/-- Whoever comes back from a park leaves the items and the state of the queue alone. -/
theorem sameSight_setQueue {q : Nat} {queue : UnboundedQueue Value}
    (hitems : queue.items = (w.queue q).items) (hclosed : queue.closed = (w.queue q).closed) :
    w.SameSight (w.setQueue q queue) := by
  refine ⟨⟨fun k => ?_, fun _ => rfl, fun _ => rfl, fun r => ?_⟩, rfl⟩
  · rw [queue_setQueue]
    split
    · next hqk => rw [hitems, hqk]
    · rfl
  · rw [isClosed_setQueue]
    split
    · next hr => rw [hclosed, hr, isClosed]
    · rfl

theorem sameSight_setBounded {q : Nat} {queue : BoundedQueue Value}
    (hring : queue.ring = (w.boundedQueue q).ring)
    (hcapacity : queue.capacity = (w.boundedQueue q).capacity)
    (hclosed : queue.closed = (w.boundedQueue q).closed) : w.SameSight (w.setBounded q queue) := by
  refine ⟨⟨fun _ => rfl, fun k => ?_, fun k => ?_, fun r => ?_⟩, rfl⟩
  · rw [boundedQueue_setBounded]
    split
    · next hqk => rw [hring, hqk]
    · rfl
  · rw [boundedQueue_setBounded]
    split
    · next hqk => rw [hcapacity, hqk]
    · rfl
  · rw [isClosed_setBounded]
    split
    · next hr => rw [hclosed, hr, isClosed]
    · rfl

/-- Everything that a step makes of all queues, and what it deals with them: it enters a critical
section of one queue, makes a new one or does nothing. -/
inductive Exchange (w : World) : (QueueRef → Dealing Value) → World → Prop where
  | nothing {w' : World} (hsame : w.SameItems w') : Exchange w (fun _ => {}) w'
  | unbounded {w' : World} {q : Nat} {dealt : Dealing Value} {queue : UnboundedQueue Value}
    (hsame : w.SameItems w') (h : (w'.queue q).Exchange dealt queue) :
    Exchange w (QueueRef.only (.unbounded q) dealt) (w'.setQueue q queue)
  | bounded {w' : World} {q : Nat} {dealt : Dealing Value} {queue : BoundedQueue Value}
    (hsame : w.SameItems w') (h : (w'.boundedQueue q).Exchange dealt queue) :
    Exchange w (QueueRef.only (.bounded q) dealt) (w'.setBounded q queue)
  | creates {w' w'' : World} {queue : BoundedQueue Value} {capacity : Nat}
    (hsame : w.SameItems w') (h : queue.Implements { capacity })
    (hqueues : w''.queues = w'.queues) (hbounded : w''.bounded = w'.bounded ++ [queue]) :
    Exchange w (fun _ => {}) w''

namespace Exchange

theorem of_same (h : w'.Exchange d w'') (hsame : w.SameItems w') : w.Exchange d w'' := by
  cases h with
  | nothing hsame' => exact .nothing (hsame.trans hsame')
  | unbounded hsame' h => exact .unbounded (hsame.trans hsame') h
  | bounded hsame' h => exact .bounded (hsame.trans hsame') h
  | creates hsame' h hqueues hbounded => exact .creates (hsame.trans hsame') h hqueues hbounded

theorem unbounded_nothing {q : Nat} {queue : UnboundedQueue Value} (hsame : w.SameItems w')
    (h : (w'.queue q).Exchange {} queue) : w.Exchange (fun _ => {}) (w'.setQueue q queue) := by
  have hexchange := unbounded hsame h
  rwa [QueueRef.only_nothing] at hexchange

theorem bounded_nothing {q : Nat} {queue : BoundedQueue Value} (hsame : w.SameItems w')
    (h : (w'.boundedQueue q).Exchange {} queue) :
    w.Exchange (fun _ => {}) (w'.setBounded q queue) := by
  have hexchange := bounded hsame h
  rwa [QueueRef.only_nothing] at hexchange

end Exchange

def dealingBounded (w : World) (s : String) (dealt : Nat → Dealing Value) :
    QueueRef → Dealing Value :=
  match w.boundedNamed? s with
  | some q => QueueRef.only (.bounded q) (dealt q)
  | none => fun _ => {}

theorem exchange_withBounded {s : String} {dealt : Nat → Dealing Value} {f : Nat → Reply}
    (h : ∀ q, w.Exchange (QueueRef.only (.bounded q) (dealt q)) (f q).world) :
    w.Exchange (w.dealingBounded s dealt) (w.withBounded s f).world := by
  cases hs : w.boundedNamed? s with
  | none =>
      simp only [dealingBounded, withBounded, hs]
      exact .nothing (SameQueues.refl w).sameItems
  | some q =>
      simp only [dealingBounded, withBounded, hs]
      exact h q

theorem exchange_withBounded_nothing {s : String} {f : Nat → Reply}
    (h : ∀ q, w.Exchange (fun _ => {}) (f q).world) :
    w.Exchange (fun _ => {}) (w.withBounded s f).world := by
  unfold withBounded
  split
  · exact h _
  · exact .nothing (SameQueues.refl w).sameItems

end World

def QueueOp.dealing (w : World) : QueueOp → QueueRef → Dealing Value
  | .add q v | .push q v =>
    let (q, w) := w.queueNamed q
    let (v, w) := w.evaluate v
    QueueRef.only (.unbounded q) (.ofAdd [v] ((w.queue q).add? v).isSome)
  | .addAll q vs =>
    let (q, w) := w.queueNamed q
    let (vs, w) := w.evaluateAll vs
    QueueRef.only (.unbounded q) (.ofAdd vs ((w.queue q).addAll? vs).isSome)
  | .offer q v =>
    let (q, w) := w.queueNamed q
    let (v, w) := w.evaluate v
    QueueRef.only (.unbounded q) (((w.queue q).offer v).1.dealing v)
  | .poll q =>
    let (q, w) := w.queueNamed q
    QueueRef.only (.unbounded q) (.ofPoll (w.queue q).poll.1)
  | .popNow t q =>
    let (_, w) := w.threadNamed t
    let (q, w) := w.queueNamed q
    QueueRef.only (.unbounded q) (.ofPoll (w.queue q).poll.1)
  | .clear q =>
    let (q, w) := w.queueNamed q
    QueueRef.only (.unbounded q) { removed := (w.queue q).items }
  | .boundedOffer s v => w.dealingBounded s fun q =>
    let (v, w) := w.evaluate v
    ((w.boundedQueue q).offer v).1.dealing v
  | .boundedPushNow t s v => w.dealingBounded s fun q =>
    let (_, w) := w.threadNamed t
    let (v, w) := w.evaluate v
    ((w.boundedQueue q).offer v).1.dealing v
  | .boundedPoll s => w.dealingBounded s fun q => .ofPoll (w.boundedQueue q).poll.1
  | .boundedPopNow t s => w.dealingBounded s fun q =>
    let (_, w) := w.threadNamed t
    .ofPoll (w.boundedQueue q).poll.1
  | .boundedClear s => w.dealingBounded s fun q => { removed := (w.boundedQueue q).contents }
  | .close _ | .info _ | .boundedNew _ _ | .boundedCapacity _ _ | .boundedClose _
  | .boundedInfo _ => fun _ => {}

/-- A step on a queue enters one critical section at most, after its names and values. -/
theorem QueueOp.exchange_perform (op : QueueOp) (w : World) :
    w.Exchange (op.dealing w) (op.perform w).world := by
  have hsame : w.SameItems w := (World.SameQueues.refl w).sameItems
  have hqueue : ∀ q, w.SameItems (w.queueNamed q).2 :=
    fun q => (w.quiet_queueNamed q).toSameQueues.sameItems
  have hvalue : ∀ q v, w.SameItems ((w.queueNamed q).2.evaluate v).2 :=
    fun q v => ((w.quiet_queueNamed q).trans (World.quiet_evaluate _ v)).toSameQueues.sameItems
  cases op with
  | add q v | push q v =>
      simp only [perform, dealing]
      split
      · next queue hadd =>
        rw [hadd]
        exact .unbounded (hvalue q v) (.add hadd)
      · next hadd => simpa [hadd, Dealing.ofAdd] using .nothing (hvalue q v)
  | addAll q vs =>
      have hvalues : w.SameItems ((w.queueNamed q).2.evaluateAll vs).2 := by
        refine (World.Quiet.toSameQueues (.trans (w.quiet_queueNamed q) (.of_eq ?_))).sameItems
        simp
      simp only [perform, dealing]
      split
      · next queue hadd =>
        rw [hadd]
        exact .unbounded hvalues (.addAll hadd)
      · next hadd => simpa [hadd, Dealing.ofAdd] using .nothing hvalues
  | offer q v => exact .unbounded (hvalue q v) (.offer _)
  | poll q => exact .unbounded (hqueue q) .poll
  | popNow t q =>
      have hnamed : w.SameItems ((w.threadNamed t).2.queueNamed q).2 :=
        ((w.quiet_threadNamed t).trans (World.quiet_queueNamed _ q)).toSameQueues.sameItems
      have hpolled : UnboundedQueue.Exchange (((w.threadNamed t).2.queueNamed q).2.queue
        ((w.threadNamed t).2.queueNamed q).1) _ _ := .poll
      simp only [perform, dealing]
      split
      · next v queue hpoll =>
        rw [hpoll] at hpolled ⊢
        exact .unbounded hnamed hpolled
      · next hpoll =>
        rw [hpoll]
        simpa [Dealing.ofPoll] using .nothing hnamed
  | clear q => exact .unbounded (hqueue q) .clear
  | close q => exact .unbounded_nothing (hqueue q) .close
  | info q => exact .nothing (hqueue q)
  | boundedNew s capacity =>
      simp only [perform]
      split
      · next queue hnew => exact .creates hsame (BoundedQueue.implements_new hnew).1 rfl rfl
      · exact .nothing (by simpa using hsame)
  | boundedCapacity s capacity =>
      refine World.exchange_withBounded_nothing fun q => ?_
      split
      · next queue hchange => exact .bounded_nothing hsame (.changeCapacity hchange)
      · exact .nothing (by simpa using hsame)
  | boundedOffer s v =>
      refine World.exchange_withBounded fun q => ?_
      exact .bounded (w.quiet_evaluate v).toSameQueues.sameItems (.offer _)
  | boundedPushNow t s v =>
      refine World.exchange_withBounded fun q => ?_
      have hnamed : w.SameItems ((w.threadNamed t).2.evaluate v).2 :=
        ((w.quiet_threadNamed t).trans (World.quiet_evaluate _ v)).toSameQueues.sameItems
      have hoffered : (((w.threadNamed t).2.evaluate v).2.boundedQueue q).Exchange _ _ :=
        .offer ((w.threadNamed t).2.evaluate v).1
      dsimp only
      split
      · next queue hoffer =>
        rw [hoffer] at hoffered ⊢
        exact .bounded hnamed hoffered
      · next hoffer =>
        rw [hoffer]
        simpa [Offer.dealing] using .nothing hnamed
      · next hoffer =>
        rw [hoffer]
        simpa [Offer.dealing] using .nothing hnamed
  | boundedPoll s => exact World.exchange_withBounded fun q => .bounded hsame .poll
  | boundedPopNow t s =>
      refine World.exchange_withBounded fun q => ?_
      have hnamed : w.SameItems (w.threadNamed t).2 :=
        (w.quiet_threadNamed t).toSameQueues.sameItems
      have hpolled : ((w.threadNamed t).2.boundedQueue q).Exchange _ _ := .poll
      dsimp only
      split
      · next v queue hpoll =>
        rw [hpoll] at hpolled ⊢
        exact .bounded hnamed hpolled
      · next hpoll =>
        rw [hpoll]
        simpa [Dealing.ofPoll] using .nothing hnamed
  | boundedClear s => exact World.exchange_withBounded fun q => .bounded hsame .clear
  | boundedClose s =>
      exact World.exchange_withBounded_nothing fun q => .bounded_nothing hsame .close
  | boundedInfo s => exact World.exchange_withBounded_nothing fun q => .nothing hsame

def Wait.dealing (wait : Wait) (progress : Progress) : QueueRef → Dealing Value :=
  match wait, progress with
  | .put _ q item, .done (.flag accepted) =>
    QueueRef.only (.bounded q) (.ofPut item (.done accepted))
  | .take _ q _, .done (.taken result) =>
    QueueRef.only (.unbounded q) (.ofTake (.done result))
  | .boundedTake _ q _, .done (.taken result) =>
    QueueRef.only (.bounded q) (.ofTake (.done result))
  | _, _ => fun _ => {}

theorem Wait.dealing_interrupted (wait wait' : Wait) :
    wait.dealing (.interrupted wait') = fun _ => {} := by
  cases wait <;> rfl

theorem Wait.dealing_of_not_queueing {wait : Wait} (h : wait.isQueueing = false)
    (progress : Progress) : wait.dealing progress = fun _ => {} := by
  cases wait with
  | take | boundedTake | put => cases h
  | park | acquire | scripted => rfl

theorem Wait.exchange_attempt {wait : Wait} (ticket : Ticket) (w : World) (h : wait.isQueueing) :
    w.Exchange (wait.dealing (wait.attempt ticket w).2) (wait.attempt ticket w).1 := by
  have hsame : w.SameItems w := (World.SameQueues.refl w).sameItems
  cases wait with
  | park | acquire | scripted => cases h
  | take t q deadline =>
      have htaken : (w.queue q).Exchange _ _ := .take (isLate w.clock deadline) ticket
      simp only [attempt]
      split
      · next result queue htake =>
        rw [htake] at htaken
        exact .unbounded hsame htaken
      · next queue htake =>
        rw [htake] at htaken
        exact .unbounded_nothing hsame htaken
  | boundedTake t q deadline =>
      have htaken : (w.boundedQueue q).Exchange _ _ := .take (isLate w.clock deadline) ticket
      simp only [attempt]
      split
      · next result queue htake =>
        rw [htake] at htaken
        exact .bounded hsame htaken
      · next queue htake =>
        rw [htake] at htaken
        exact .bounded_nothing hsame htaken
  | put t q item =>
      have hoffered : (w.boundedQueue q).Exchange _ _ := .put item ticket
      simp only [attempt]
      split
      · next accepted queue hput =>
        rw [hput] at hoffered
        exact .bounded hsame hoffered
      · next queue hput =>
        rw [hput] at hoffered
        exact .bounded_nothing hsame hoffered

/-- A thread that comes back from its park notices an interrupt or enters the critical section
again. -/
theorem Wait.resume_eq {wait : Wait} (h : wait.isQueueing) (old ticket : Ticket) (w : World) :
    ∃ w', w.SameSight w' ∧
      wait.resume old ticket w = wait.unlessInterrupted w' (wait.attempt ticket w') := by
  cases wait with
  | park | acquire | scripted => cases h
  | take t q deadline =>
      refine ⟨w.setQueue q ((w.queue q).unpark old), ?_, rfl⟩
      exact World.sameSight_setQueue rfl rfl
  | boundedTake t q deadline =>
      refine ⟨w.setBounded q ((w.boundedQueue q).unparkConsumer old), ?_, rfl⟩
      exact World.sameSight_setBounded rfl rfl rfl
  | put t q item =>
      refine ⟨w.setBounded q ((w.boundedQueue q).unparkProducer old), ?_, rfl⟩
      exact World.sameSight_setBounded rfl rfl rfl

theorem Wait.exchange_resume {wait : Wait} (old ticket : Ticket) (w : World)
    (h : wait.isQueueing) :
    w.Exchange (wait.dealing (wait.resume old ticket w).2) (wait.resume old ticket w).1 := by
  obtain ⟨w', hsight, hresume⟩ := resume_eq h old ticket w
  rw [hresume]
  refine World.Exchange.of_same ?_ hsight.toSameItems
  unfold unlessInterrupted
  split
  · rw [dealing_interrupted]
    have hdropped : w'.Still (w'.updateThread wait.thread (·.dropInterrupt)) :=
      w'.still_updateThread wait.thread ⟨rfl, rfl⟩
    exact .nothing hdropped.toSameQueues.sameItems
  · exact exchange_attempt ticket w' h

def Executor.dealing (w : World) (e : Executor) : QueueRef → Dealing Value :=
  match e.control with
  | .perform (.queue op) => op.dealing w
  | .attempt wait => wait.dealing (wait.attempt w.drawTicket.1 w.drawTicket.2).2
  | .parked wait old _ => wait.dealing (wait.resume old w.drawTicket.1 w.drawTicket.2).2
  | _ => fun _ => {}

namespace Machine

def dealing (me : Nat) (m : Machine) : QueueRef → Dealing Value :=
  match m.executors[me]? with
  | some e => e.dealing m.world
  | none => fun _ => {}

theorem exchange_step (m : Machine) (me : Nat) :
    m.world.Exchange (m.dealing me) (m.step me).world := by
  have hdraw := m.world.sameSight_drawTicket.toSameItems
  cases he : m.executors[me]? with
  | none =>
      have hstep : m.step me = m := by simp [step, he]
      have hdealing : m.dealing me = fun _ => {} := by simp [dealing, he]
      rw [hdealing, hstep]
      exact .nothing (World.SameQueues.refl _).sameItems
  | some e =>
      have hidle : m.dealing me = (fun _ => {}) →
          (∀ op, e.control ≠ .perform (.queue op)) →
          (∀ wait, e.control = .attempt wait → wait.isQueueing = false) →
          (∀ wait ticket wakeAt, e.control = .parked wait ticket wakeAt →
            wait.isQueueing = false) → m.world.Exchange (m.dealing me) (m.step me).world := by
        intro hdealing hop hattempt hparked
        rw [hdealing]
        exact .nothing (sameQueues_step he hop hattempt hparked).sameItems
      have hdealing : m.dealing me = e.dealing m.world := by simp [dealing, he]
      unfold Executor.dealing at hdealing
      split at hdealing
      · next op hcontrol =>
        rw [hdealing]
        simp only [step, he, hcontrol]
        exact op.exchange_perform m.world
      · next wait hcontrol =>
        cases hqueueing : wait.isQueueing with
        | true =>
            rw [hdealing]
            simp only [step, he, hcontrol, put, world_afterAttempt]
            exact (Wait.exchange_attempt _ _ hqueueing).of_same hdraw
        | false =>
            apply hidle (hdealing.trans (Wait.dealing_of_not_queueing hqueueing _)) <;>
              simp [hcontrol, hqueueing]
      · next wait old wakeAt hcontrol =>
        cases hqueueing : wait.isQueueing with
        | true =>
            rw [hdealing]
            simp only [step, he, hcontrol, put, world_afterAttempt]
            exact (Wait.exchange_resume _ _ _ hqueueing).of_same hdraw
        | false =>
            apply hidle (hdealing.trans (Wait.dealing_of_not_queueing hqueueing _)) <;>
              simp [hcontrol, hqueueing]
      · next hop hattempt hparked =>
        refine hidle hdealing hop ?_ ?_
        · exact fun wait hcontrol => absurd hcontrol (hattempt wait)
        · exact fun wait ticket wakeAt hcontrol => absurd hcontrol (hparked wait ticket wakeAt)

end Machine

end Session

end RubyRuntime
