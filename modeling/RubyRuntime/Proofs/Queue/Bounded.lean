import RubyRuntime.Proofs.Queue.Ring
import RubyRuntime.Queue.Bounded

/-!
# Bounded queues are lists with a capacity

`Fifo` is what a bounded queue is meant to be: a list, a capacity and a flag. A bounded queue gives
the same answers as a `Fifo` to every sequence of commands and shows the same items, whatever its
ring looks like inside: wrapped around, shrunk below its items or refilled.
-/
namespace RubyRuntime

variable {α : Type}

/-- A first-in first-out list that takes items while it is open and shorter than its capacity. -/
structure Fifo (α : Type) where
  items : List α := []
  capacity : Nat
  closed : Bool := false

namespace Fifo

def offer (item : α) (fifo : Fifo α) : Offer α × Fifo α :=
  if fifo.closed then (.closed item, fifo)
  else if fifo.items.length < fifo.capacity then
    (.success, { fifo with items := fifo.items ++ [item] })
  else (.full item, fifo)

def poll (fifo : Fifo α) : Option α × Fifo α :=
  (fifo.items.head?, { fifo with items := fifo.items.tail })

def put (item : α) (fifo : Fifo α) : Attempt Bool × Fifo α :=
  if fifo.closed then (.done false, fifo)
  else if fifo.items.length < fifo.capacity then
    (.done true, { fifo with items := fifo.items ++ [item] })
  else (.park, fifo)

def take (late : Bool) (fifo : Fifo α) : Attempt (Option (Taken α)) × Fifo α :=
  match fifo.items with
  | item :: rest => (.done (some (.item item)), { fifo with items := rest })
  | [] =>
    if fifo.closed then (.done (some .closed), fifo)
    else if late then (.done none, fifo)
    else (.park, fifo)

def clear (fifo : Fifo α) : Fifo α :=
  { fifo with items := [] }

def close (fifo : Fifo α) : Fifo α :=
  { fifo with closed := true }

end Fifo

inductive QueueCommand (α : Type) where
  | offer (item : α)
  | poll
  | put (item : α) (ticket : Ticket)
  | take (late : Bool) (ticket : Ticket)
  | changeCapacity (requested : Int)
  | clear
  | close

inductive QueueAnswer (α : Type) where
  | offered (outcome : Offer α)
  | polled (item : Option α)
  | put (attempt : Attempt Bool)
  | taken (attempt : Attempt (Option (Taken α)))
  | capacityChanged
  | refused (e : Error)
  | panicked (text : String)
  | done

/-- A new capacity is taken if it is positive, fits into a word and its slots take less than half of
all addresses. -/
def Fifo.changeCapacity (slotBytes : Nat) (requested : Int) (fifo : Fifo α) :
    QueueAnswer α × Fifo α :=
  if requested ≤ 0 then (.refused (.core .argument "queue size must be positive"), fifo)
  else if requested ≥ Int.pow 2 64 then (.refused (.core .argument "queue size too big"), fifo)
  else if requested * slotBytes ≥ Int.pow 2 63 then (.panicked "capacity overflow", fifo)
  else (.capacityChanged, { fifo with capacity := requested.toNat })

def Fifo.answer (slotBytes : Nat) (fifo : Fifo α) : QueueCommand α → QueueAnswer α × Fifo α
  | .offer item => ((fifo.offer item).map .offered id)
  | .poll => fifo.poll.map .polled id
  | .put item _ => (fifo.put item).map .put id
  | .take late _ => (fifo.take late).map .taken id
  | .changeCapacity requested => fifo.changeCapacity slotBytes requested
  | .clear => (.done, fifo.clear)
  | .close => (.done, fifo.close)

def Fifo.answers (slotBytes : Nat) (fifo : Fifo α) :
    List (QueueCommand α) → List (QueueAnswer α) × Fifo α
  | [] => ([], fifo)
  | command :: rest =>
    let (answer, fifo) := fifo.answer slotBytes command
    (fifo.answers slotBytes rest).map (answer :: ·) id

namespace BoundedQueue

def CapacityFailure.answer : CapacityFailure → QueueAnswer α
  | refused e => .refused e
  | overflow => .panicked Ring.overflowText

def answer (slotBytes : Nat) (queue : BoundedQueue α) :
    QueueCommand α → QueueAnswer α × BoundedQueue α
  | .offer item => (queue.offer item).map .offered id
  | .poll => queue.poll.map .polled id
  | .put item ticket => (queue.put item ticket).map .put id
  | .take late ticket => (queue.take late ticket).map .taken id
  | .changeCapacity requested =>
    match queue.changeCapacity? slotBytes requested with
    | .ok queue => (.capacityChanged, queue)
    | .error failure => (failure.answer, queue)
  | .clear => (.done, queue.clear)
  | .close => (.done, queue.close)

def answers (slotBytes : Nat) (queue : BoundedQueue α) :
    List (QueueCommand α) → List (QueueAnswer α) × BoundedQueue α
  | [] => ([], queue)
  | command :: rest =>
    let (answer, queue) := queue.answer slotBytes command
    (queue.answers slotBytes rest).map (answer :: ·) id

/-- Whatever command comes next, its indices are inside the ring, at every stage of emptying it too,
and it takes no remainder by zero. -/
structure Faultless (queue : BoundedQueue α) : Prop where
  inBounds : ∀ n, (clear.drain n queue.ring).InBounds
  resizable : ∀ requested capacity, capacity? requested = .ok capacity → max capacity queue.size ≠ 0

/-- The ring holds the items of the list and has a slot for each one that the list may still take.
-/
structure Implements (queue : BoundedQueue α) (fifo : Fifo α) : Prop where
  ring : queue.ring.Represents fifo.items
  capacity_eq : queue.capacity = fifo.capacity
  closed_eq : queue.closed = fifo.closed
  capacity_le : fifo.capacity ≤ queue.ring.slots.size

private def Agree {ρ : Type} (q : ρ × BoundedQueue α) (f : ρ × Fifo α) : Prop :=
  q.1 = f.1 ∧ q.2.Implements f.2

def Allocated (slotBytes : Nat) (queue : BoundedQueue α) : Prop :=
  queue.ring.slots.size * slotBytes ≤ Ring.maxBytes

private theorem slots_size_pop (ring : Ring α) : ring.pop.2.slots.size = ring.slots.size := by
  unfold Ring.pop
  split <;> simp

private theorem slots_size_drain (n : Nat) (ring : Ring α) :
    (clear.drain n ring).slots.size = ring.slots.size := by
  induction n generalizing ring with
  | zero => rfl
  | succ n ih => rw [clear.drain, ih, slots_size_pop]

variable {queue after : BoundedQueue α} {fifo : Fifo α} {slotBytes capacity : Nat}
  {requested : Int}

theorem capacity?_of_pos (hpos : 0 < requested) (hword : requested < Int.pow 2 64) :
    capacity? requested = .ok requested.toNat := by
  rw [capacity?, if_neg (by omega), if_neg (by omega)]

theorem fits_iff (hpos : 0 < requested) :
    requested.toNat * slotBytes ≤ Ring.maxBytes ↔ requested * slotBytes < Int.pow 2 63 := by
  obtain ⟨capacity, rfl⟩ := Int.eq_ofNat_of_zero_le (Int.le_of_lt hpos)
  have hmax : Ring.maxBytes = 9223372036854775807 := rfl
  have hpow : Int.pow 2 63 = 9223372036854775808 := rfl
  rw [Int.toNat_natCast, hmax, hpow, ← Int.natCast_mul]
  omega

theorem pos_of_capacity? (h : capacity? requested = .ok capacity) :
    0 < requested ∧ requested < Int.pow 2 64 ∧ capacity = requested.toNat := by
  unfold capacity? at h
  split_ifs at h
  cases h
  exact ⟨by omega, by omega, rfl⟩

/-- A ring that was allocated can be resized just if slots for the capacity can be. -/
theorem resized?_isSome_iff (hsize : queue.size ≤ queue.ring.slots.size)
    (hallocated : queue.Allocated slotBytes) :
    (queue.resized? slotBytes capacity).isSome ↔ capacity * slotBytes ≤ Ring.maxBytes := by
  have hmono : ∀ length ≤ queue.ring.slots.size, length * slotBytes ≤ Ring.maxBytes :=
    fun _ hle => Nat.le_trans (Nat.mul_le_mul_right slotBytes hle) hallocated
  simp only [resized?]
  rcases Nat.le_total queue.size capacity with hle | hle
  · rw [Nat.max_eq_left hle]
    split_ifs with hsame
    · simpa using hmono capacity (Nat.le_of_eq hsame)
    · simp [Ring.relinearize?]
  · rw [Nat.max_eq_right hle]
    have hfits := hmono capacity (Nat.le_trans hle hsize)
    split_ifs
    · simpa using hfits
    · simp [Ring.relinearize?, hfits, hmono queue.size hsize]

private theorem slots_size_offer (queue : BoundedQueue α) (item : α) :
    (queue.offer item).2.ring.slots.size = queue.ring.slots.size := by
  unfold offer
  split_ifs <;> simp [Ring.push]

private theorem slots_size_poll (queue : BoundedQueue α) :
    queue.poll.2.ring.slots.size = queue.ring.slots.size := by
  have hpop := slots_size_pop queue.ring
  unfold poll
  split
  · next hring => simpa [hring] using hpop
  · next hring => simpa [hring] using hpop

private theorem slots_size_put (queue : BoundedQueue α) (item : α) (ticket : Ticket) :
    (queue.put item ticket).2.ring.slots.size = queue.ring.slots.size := by
  have hoffer := slots_size_offer queue item
  unfold put
  split <;> next heq => simpa [heq] using hoffer

private theorem slots_size_take (queue : BoundedQueue α) (late : Bool) (ticket : Ticket) :
    (queue.take late ticket).2.ring.slots.size = queue.ring.slots.size := by
  have hpoll := slots_size_poll queue
  unfold take
  split
  · next heq => simpa [heq] using hpoll
  · next heq => split_ifs <;> simpa [heq] using hpoll

namespace Implements

theorem isFull_eq (h : queue.Implements fifo) :
    queue.isFull = decide (fifo.capacity ≤ fifo.items.length) := by
  simp [isFull, size, h.ring.size_eq, h.capacity_eq]

/-- The numbers of waiting threads and the lists of parks do not matter. -/
theorem of_eq {other : BoundedQueue α} (h : queue.Implements fifo)
    (hring : other.ring = queue.ring) (hcapacity : other.capacity = queue.capacity)
    (hclosed : other.closed = queue.closed) : other.Implements fifo where
  ring := hring ▸ h.ring
  capacity_eq := hcapacity.trans h.capacity_eq
  closed_eq := hclosed.trans h.closed_eq
  capacity_le := hring ▸ h.capacity_le

theorem push (h : queue.Implements fifo) (item : α) (hroom : fifo.items.length < fifo.capacity) :
    { queue with ring := queue.ring.push item }.Implements
      { fifo with items := fifo.items ++ [item] } where
  ring := by
    have hsize := h.ring.size_eq
    have hslots := h.capacity_le
    exact h.ring.push item (by omega)
  capacity_eq := h.capacity_eq
  closed_eq := h.closed_eq
  capacity_le := by simpa [Ring.push] using h.capacity_le

theorem offer (h : queue.Implements fifo) (item : α) :
    Agree (queue.offer item) (fifo.offer item) := by
  have hclosed := h.closed_eq
  have hfull := h.isFull_eq
  by_cases hc : fifo.closed
  · have hq : queue.offer item = (.closed item, queue) := by simp [BoundedQueue.offer, hclosed, hc]
    have hf : fifo.offer item = (.closed item, fifo) := by simp [Fifo.offer, hc]
    rw [hq, hf]
    exact ⟨rfl, h⟩
  · by_cases hroom : fifo.items.length < fifo.capacity
    · have hq : queue.offer item = (.success, { queue with
          ring := queue.ring.push item
          consumers := queue.consumers.notifyOne }) := by
        simp [BoundedQueue.offer, hclosed, hc, hfull, hroom]
      have hf : fifo.offer item = (.success, { fifo with items := fifo.items ++ [item] }) := by
        simp [Fifo.offer, hc, hroom]
      rw [hq, hf]
      exact ⟨rfl, (h.push item hroom).of_eq rfl rfl rfl⟩
    · have hq : queue.offer item = (.full item, queue) := by
        simp [BoundedQueue.offer, hclosed, hc, hfull, Nat.not_lt.mp hroom]
      have hf : fifo.offer item = (.full item, fifo) := by simp [Fifo.offer, hc, hroom]
      rw [hq, hf]
      exact ⟨rfl, h⟩

theorem poll (h : queue.Implements fifo) : Agree queue.poll fifo.poll := by
  obtain ⟨items, capacity, closed⟩ := fifo
  cases items with
  | nil =>
      have hpop := h.ring.pop_nil
      have hq : queue.poll = (none, queue) := by simp [BoundedQueue.poll, hpop]
      rw [hq]
      exact ⟨rfl, h⟩
  | cons a items =>
      obtain ⟨hitem, hring⟩ := h.ring.pop_cons
      have hpop : queue.ring.pop = (some a, queue.ring.pop.2) := Prod.ext hitem rfl
      have hq : queue.poll = (some a, { queue with
          ring := queue.ring.pop.2
          producers := queue.producers.notifyOne }) := by
        unfold BoundedQueue.poll
        rw [hpop]
      rw [hq]
      refine ⟨rfl, hring, h.capacity_eq, h.closed_eq, ?_⟩
      rw [slots_size_pop]
      exact h.capacity_le

theorem put (h : queue.Implements fifo) (item : α) (ticket : Ticket) :
    Agree (queue.put item ticket) (fifo.put item) := by
  have hagree := h.offer item
  unfold BoundedQueue.put
  generalize queue.offer item = result at hagree ⊢
  obtain ⟨outcome, after⟩ := result
  obtain ⟨rfl, himplements⟩ := hagree
  unfold Fifo.offer Fifo.put at *
  split_ifs at himplements ⊢
  · exact ⟨rfl, himplements⟩
  · exact ⟨rfl, himplements⟩
  · exact ⟨rfl, himplements.of_eq rfl rfl rfl⟩

theorem take (h : queue.Implements fifo) (late : Bool) (ticket : Ticket) :
    Agree (queue.take late ticket) (fifo.take late) := by
  have hagree := h.poll
  unfold BoundedQueue.take
  generalize queue.poll = result at hagree ⊢
  obtain ⟨item, after⟩ := result
  obtain ⟨rfl, himplements⟩ := hagree
  obtain ⟨items, capacity, closed⟩ := fifo
  cases items with
  | nil =>
      have hclosed : after.closed = closed := himplements.closed_eq
      simp only [Fifo.poll, Fifo.take, List.head?_nil, hclosed]
      split_ifs
      · exact ⟨rfl, himplements⟩
      · exact ⟨rfl, himplements⟩
      · exact ⟨rfl, himplements.of_eq rfl rfl hclosed.symm⟩
  | cons a items => exact ⟨rfl, himplements⟩

/-- The ring is as long as it was or has been laid out anew, and is no shorter than its items. -/
theorem resized (h : queue.Implements fifo) (hpos : 0 < capacity) {ring : Ring α}
    (hring : queue.resized? slotBytes capacity = some ring) :
    ring.Represents fifo.items ∧ capacity ≤ ring.slots.size ∧
      (queue.Allocated slotBytes → ring.slots.size * slotBytes ≤ Ring.maxBytes) := by
  have hsize : queue.size = fifo.items.length := h.ring.size_eq
  have hsame : queue.ring.size = fifo.items.length := h.ring.size_eq
  simp only [resized?, Ring.relinearize?] at hring
  split_ifs at hring with hlength hfits
  · cases hring
    exact ⟨h.ring, by omega, id⟩
  · cases hring
    have hslots : (queue.ring.relinearize (max capacity queue.size)).slots.size =
        max capacity queue.size := by
      simp [Ring.relinearize]
      omega
    refine ⟨h.ring.relinearize (by omega) (by omega), ?_, fun _ => ?_⟩
    · omega
    · rwa [hslots]

theorem changeCapacity (h : queue.Implements fifo)
    (hchange : queue.changeCapacity? slotBytes requested = .ok after) :
    after.Implements { fifo with capacity := requested.toNat } ∧
      (queue.Allocated slotBytes → after.Allocated slotBytes) := by
  unfold changeCapacity? at hchange
  split at hchange
  · cases hchange
  · next capacity hcapacity =>
    obtain ⟨hpos, -, rfl⟩ := pos_of_capacity? hcapacity
    split at hchange
    · next ring hring =>
      obtain ⟨hrepresents, hle, hallocated⟩ := h.resized (by omega) hring
      cases hchange
      exact ⟨⟨hrepresents, rfl, h.closed_eq, hle⟩, hallocated⟩
    · cases hchange

theorem drain {ring : Ring α} {items : List α} (h : ring.Represents items) (n : Nat) :
    (clear.drain n ring).Represents (items.drop n) := by
  induction n generalizing ring items with
  | zero => exact h
  | succ n ih =>
      cases items with
      | nil =>
          have hpop := h.pop_nil
          simpa [clear.drain, hpop] using ih h
      | cons a items => exact ih h.pop_cons.2

theorem faultless (h : queue.Implements fifo) : queue.Faultless where
  inBounds n := (drain h.ring n).inBounds
  resizable requested capacity hcapacity := by
    obtain ⟨hpos, -, rfl⟩ := pos_of_capacity? hcapacity
    omega

theorem clear (h : queue.Implements fifo) : queue.clear.Implements fifo.clear where
  ring := by
    have hdrained := drain h.ring queue.ring.size
    rwa [h.ring.size_eq, List.drop_length, ← h.ring.size_eq] at hdrained
  capacity_eq := h.capacity_eq
  closed_eq := h.closed_eq
  capacity_le := by
    have hslots := slots_size_drain queue.ring.size queue.ring
    have hle := h.capacity_le
    simp only [BoundedQueue.clear, Fifo.clear]
    omega

theorem close (h : queue.Implements fifo) : queue.close.Implements fifo.close where
  ring := h.ring
  capacity_eq := h.capacity_eq
  closed_eq := rfl
  capacity_le := h.capacity_le

theorem answer_changeCapacity (h : queue.Implements fifo) (hallocated : queue.Allocated slotBytes)
    (requested : Int) :
    Agree (queue.answer slotBytes (.changeCapacity requested))
      (fifo.changeCapacity slotBytes requested) := by
  have hsize : queue.size ≤ queue.ring.slots.size := h.ring.size_le
  unfold Fifo.changeCapacity
  split_ifs with hpos hword hbytes
  · have hq : queue.changeCapacity? slotBytes requested =
        .error (.refused Cause.capacityNotPositive.error) := by
      simp [changeCapacity?, capacity?, hpos]
    rw [BoundedQueue.answer, hq]
    exact ⟨rfl, h⟩
  · have hq : queue.changeCapacity? slotBytes requested =
        .error (.refused Cause.capacityTooBig.error) := by
      rw [changeCapacity?, capacity?, if_neg hpos, if_pos hword]
    rw [BoundedQueue.answer, hq]
    exact ⟨rfl, h⟩
  · have hcapacity := capacity?_of_pos (Int.not_le.mp hpos) (Int.not_le.mp hword)
    have hnone : queue.resized? slotBytes requested.toNat = none := by
      rw [← Option.not_isSome_iff_eq_none, resized?_isSome_iff hsize hallocated,
        fits_iff (Int.not_le.mp hpos)]
      exact Int.not_lt.mpr hbytes
    have hq : queue.changeCapacity? slotBytes requested = .error .overflow := by
      simp only [changeCapacity?, hcapacity, hnone]
    rw [BoundedQueue.answer, hq]
    exact ⟨rfl, h⟩
  · have hcapacity := capacity?_of_pos (Int.not_le.mp hpos) (Int.not_le.mp hword)
    obtain ⟨ring, hring⟩ : ∃ ring, queue.resized? slotBytes requested.toNat = some ring := by
      rw [← Option.isSome_iff_exists, resized?_isSome_iff hsize hallocated,
        fits_iff (Int.not_le.mp hpos)]
      exact Int.not_le.mp hbytes
    obtain ⟨after, hafter⟩ : ∃ after, queue.changeCapacity? slotBytes requested = .ok after := by
      simp only [changeCapacity?, hcapacity, hring]
      exact ⟨_, rfl⟩
    rw [BoundedQueue.answer, hafter]
    exact ⟨rfl, (h.changeCapacity hafter).1⟩

theorem answer (h : queue.Implements fifo) (hallocated : queue.Allocated slotBytes)
    (command : QueueCommand α) :
    Agree (queue.answer slotBytes command) (fifo.answer slotBytes command) := by
  cases command with
  | offer item =>
      obtain ⟨hanswer, hafter⟩ := h.offer item
      exact ⟨congrArg _ hanswer, hafter⟩
  | poll =>
      obtain ⟨hanswer, hafter⟩ := h.poll
      exact ⟨congrArg _ hanswer, hafter⟩
  | put item ticket =>
      obtain ⟨hanswer, hafter⟩ := h.put item ticket
      exact ⟨congrArg _ hanswer, hafter⟩
  | take late ticket =>
      obtain ⟨hanswer, hafter⟩ := h.take late ticket
      exact ⟨congrArg _ hanswer, hafter⟩
  | changeCapacity requested => exact h.answer_changeCapacity hallocated requested
  | clear => exact ⟨rfl, h.clear⟩
  | close => exact ⟨rfl, h.close⟩

theorem allocated_answer (h : queue.Implements fifo) (hallocated : queue.Allocated slotBytes)
    (command : QueueCommand α) : (queue.answer slotBytes command).2.Allocated slotBytes := by
  have hsame : ∀ {after : BoundedQueue α}, after.ring.slots.size = queue.ring.slots.size →
      after.Allocated slotBytes := by
    intro after heq
    rwa [Allocated, heq]
  cases command with
  | offer item => exact hsame (slots_size_offer queue item)
  | poll => exact hsame (slots_size_poll queue)
  | put item ticket => exact hsame (slots_size_put queue item ticket)
  | take late ticket => exact hsame (slots_size_take queue late ticket)
  | changeCapacity requested =>
      simp only [BoundedQueue.answer]
      split
      · next after hafter => exact (h.changeCapacity hafter).2 hallocated
      · exact hallocated
  | clear => exact hsame (slots_size_drain queue.ring.size queue.ring)
  | close => exact hallocated

theorem answers (h : queue.Implements fifo) (hallocated : queue.Allocated slotBytes)
    (commands : List (QueueCommand α)) :
    Agree (queue.answers slotBytes commands) (fifo.answers slotBytes commands) := by
  induction commands generalizing queue fifo with
  | nil => exact ⟨rfl, h⟩
  | cons command rest ih =>
      obtain ⟨hanswer, hafter⟩ := h.answer hallocated command
      obtain ⟨hanswers, hfinal⟩ := ih hafter (h.allocated_answer hallocated command)
      constructor
      · simp only [BoundedQueue.answers, Fifo.answers, Prod.map_fst, hanswer, hanswers]
      · exact hfinal

end Implements

theorem implements_new {queue : BoundedQueue α} (h : new? slotBytes requested = .ok queue) :
    queue.Implements { capacity := requested.toNat } ∧ queue.Allocated slotBytes ∧
      0 < requested ∧ requested < Int.pow 2 64 ∧ requested * slotBytes < Int.pow 2 63 := by
  unfold new? at h
  split at h
  · cases h
  · next capacity hcapacity =>
    obtain ⟨hpos, hword, rfl⟩ := pos_of_capacity? hcapacity
    have hlength : 0 < requested.toNat := by omega
    unfold Ring.empty? at h
    split_ifs at h with hfits
    cases h
    refine ⟨⟨Ring.Represents.empty hlength, rfl, rfl, by simp [Ring.empty]⟩, ?_, hpos, hword,
      (fits_iff hpos).mp hfits⟩
    simpa [Allocated, Ring.empty] using hfits

theorem answer_of_not_new {failure : CapacityFailure}
    (h : (new? slotBytes requested : Except CapacityFailure (BoundedQueue α)) = .error failure)
    (fifo : Fifo α) :
    fifo.changeCapacity slotBytes requested = (failure.answer, fifo) := by
  unfold new? at h
  unfold Fifo.changeCapacity
  split_ifs with hpos hword hbytes
  · simp only [capacity?, if_pos hpos] at h
    cases h
    rfl
  · simp only [capacity?, if_neg hpos, if_pos hword] at h
    cases h
    rfl
  · rw [capacity?_of_pos (Int.not_le.mp hpos) (Int.not_le.mp hword)] at h
    have hfits : ¬ requested.toNat * slotBytes ≤ Ring.maxBytes := by
      rw [fits_iff (Int.not_le.mp hpos)]
      exact Int.not_lt.mpr hbytes
    simp only [Ring.empty?, if_neg hfits] at h
    cases h
    rfl
  · rw [capacity?_of_pos (Int.not_le.mp hpos) (Int.not_le.mp hword)] at h
    have hfits : requested.toNat * slotBytes ≤ Ring.maxBytes :=
      (fits_iff (Int.not_le.mp hpos)).mpr (Int.not_le.mp hbytes)
    simp only [Ring.empty?, if_pos hfits, reduceCtorEq] at h

/-- A bounded queue is a first-in first-out list with a capacity and a closed flag. It can be made
for every capacity that the list would take later on and for no other; after any commands it has
given the answers of the list, shows the list's items and their number, and cannot fault. -/
theorem answers_eq_fifo_answers (slotBytes : Nat) (requested : Int)
    (commands : List (QueueCommand α)) :
    match (new? slotBytes requested : Except CapacityFailure (BoundedQueue α)) with
    | .error failure => ∀ fifo : Fifo α,
      fifo.changeCapacity slotBytes requested = (failure.answer, fifo)
    | .ok queue =>
      let (given, queue) := queue.answers slotBytes commands
      let (expected, fifo) := Fifo.answers slotBytes { capacity := requested.toNat } commands
      0 < requested ∧ requested < Int.pow 2 64 ∧ requested * slotBytes < Int.pow 2 63 ∧
        given = expected ∧ queue.contents = fifo.items ∧ queue.size = fifo.items.length ∧
        queue.capacity = fifo.capacity ∧ queue.closed = fifo.closed ∧ queue.Faultless := by
  split
  · next failure h => exact answer_of_not_new h
  · next queue h =>
    obtain ⟨himplements, hallocated, hpos, hword, hfits⟩ := implements_new h
    obtain ⟨hanswers, hafter⟩ := himplements.answers hallocated commands
    exact ⟨hpos, hword, hfits, hanswers, hafter.ring.toList_eq, hafter.ring.size_eq,
      hafter.capacity_eq, hafter.closed_eq, hafter.faultless⟩

/-- The greatest signed word is no capacity where a slot takes 24 bytes: no queue is made with it,
and a queue that is there panics and keeps its capacity and its items. -/
theorem greatest_capacity_overflows :
    let greatest : Int := Int.pow 2 63 - 1
    (new? 24 greatest : Except CapacityFailure (BoundedQueue Nat)) = .error .overflow ∧
      ∃ queue : BoundedQueue Nat, new? 24 2 = .ok queue ∧
        (queue.answers 24 [.offer 7, .changeCapacity greatest]).1 =
          [.offered .success, .panicked "capacity overflow"] ∧
        (queue.answers 24 [.offer 7, .changeCapacity greatest]).2.capacity = 2 ∧
        (queue.answers 24 [.offer 7, .changeCapacity greatest]).2.contents = [7] :=
  ⟨rfl, _, rfl, rfl, rfl, rfl⟩

end BoundedQueue

end RubyRuntime
