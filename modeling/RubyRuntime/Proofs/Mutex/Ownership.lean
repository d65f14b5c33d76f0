import RubyRuntime.Proofs.Session.Stacks

/-!
# Ownership of mutexes

Ownership is kept twice: every lock has an owner, and every thread has a list of locks on record.
The main result is that the two agree in every run in which each thread is driven by one executor,
for every lock that nobody tampers with, except between the taking of a lock and its recording. So a
thread that is sure to hold a lock does hold it, and the panics that guard against the contrary are
out of reach.
-/
namespace RubyRuntime.Session

def Control.hasTaken (t : ThreadId) (l : LockId) (control : Control) (stack : List Frame) : Bool :=
  match control with
  | .give (.ok _) => stack.head?.bind Frame.due? == some (t, l)
  | _ => false

def Executor.hasTaken (t : ThreadId) (l : LockId) (e : Executor) : Bool :=
  e.control.hasTaken t l e.stack

theorem Control.hasTaken_iff {t : ThreadId} {l : LockId} {control : Control} {stack : List Frame} :
    control.hasTaken t l stack ↔
      (∃ y, control = .give (.ok y)) ∧ stack.head?.bind Frame.due? = some (t, l) := by
  unfold Control.hasTaken
  split
  · simp
  · next hother =>
    constructor
    · intro h
      cases h
    · rintro ⟨⟨y, hgive⟩, -⟩
      exact absurd hgive (hother y)

/-- What executor `i` relies on when it has just taken the lock `l` or is about to release it: the
thread that it drives owns the lock. -/
structure Control.Sure (driver : ThreadId → Nat) (i : Nat) (l : LockId) (s : Sync Action)
    (control : Control) (stack : List Frame) : Prop where
  taken : ∀ {y t}, control = .give (.ok y) → stack.head?.bind Frame.due? = some (t, l) →
    (s.lock l).owner = some t ∧ driver t = i
  releasing : ∀ {t}, control = .releasing t l → (s.lock l).owner = some t ∧ driver t = i

namespace Control.Sure

variable {driver : ThreadId → Nat} {i : Nat} {l : LockId} {s : Sync Action} {control : Control}
  {stack : List Frame}

theorem of_none (hdue : stack.head?.bind Frame.due? = none)
    (hcontrol : ∀ t, control ≠ .releasing t l) : control.Sure driver i l s stack := by
  refine ⟨fun _ h => ?_, fun h => absurd h (hcontrol _)⟩
  rw [hdue] at h
  cases h

theorem of_ne (hgive : ∀ y, control ≠ .give (.ok y)) (hcontrol : ∀ t, control ≠ .releasing t l) :
    control.Sure driver i l s stack :=
  ⟨fun h => absurd h (hgive _), fun h => absurd h (hcontrol _)⟩

end Control.Sure

variable {driver : ThreadId → Nat} {me : Nat} {w : World} {e : Executor} {task : Task} {l : LockId}

theorem Task.Launched.sure {base : List Frame} (h : task.Launched w base)
    (hbase : Session.Fits base) (hdue : base.head?.bind Frame.due? = none) :
    task.control.Sure driver me l task.world.sync task.stack := by
  refine .of_none (h.fits (l := l) hbase hdue).2 ?_
  intro t hcontrol
  have hordinary := h.control
  rw [hcontrol] at hordinary
  cases hordinary

theorem Task.Begun.sure {base : List Frame} {actor : Option ThreadId} (h : task.Begun w base actor)
    (hbase : Session.Fits base) (hdue : base.head?.bind Frame.due? = none)
    (hdriver : ∀ t, actor = some t → driver t = me) :
    task.control.Sure driver me l task.world.sync task.stack := by
  cases h with
  | launched h => exact h.sure hbase hdue
  | @seated t k due base w' sync y halike hacquire hseat hstands =>
      refine ⟨?_, by simp [World.give]⟩
      rintro y' t' - htop
      rw [World.give, List.head?_cons, Option.bind_some, (Frame.due?_of_seat? hseat).1] at htop
      cases htop
      exact ⟨Sync.owner_of_acquire hacquire, hdriver t rfl⟩
  | blocked halike hseat hstands => exact .of_ne (by simp) (by simp)
  | @releasing t k base w' halike hheld hstands =>
      refine ⟨by simp, ?_⟩
      rintro _ ⟨⟩
      exact ⟨(halike.owner l).trans (Sync.isHeld_iff.mp hheld), hdriver t rfl⟩

theorem Advance.sure (h : Advance me w e task) (hfits : e.control.Fits l e.stack)
    (hsure : e.control.Sure driver me l w.sync e.stack)
    (hdriver : ∀ t, e.actor? w = some t → driver t = me) :
    task.control.Sure driver me l task.world.sync task.stack := by
  have hframes := hfits.frames
  cases h with
  | begins hbase h =>
      obtain ⟨hfits', hdue⟩ := hbase.fits hfits
      exact h.sure hfits' hdue hdriver
  | passes hcontrol hstack halike hresult =>
      -- A result that goes past the frame that waited comes to the frame that records.
      refine ⟨?_, by simp⟩
      rintro y t ⟨⟩ htop
      obtain ⟨t', k, previous, rfl⟩ := hresult y rfl
      rw [hstack] at hframes
      rw [due?_top_of_seat? hframes.1] at htop
      cases htop
      rw [halike.owner l]
      exact hsure.taken hcontrol (by rw [hstack]; rfl)
  | retries hcontrol hstack halike => exact .of_ne (by simp) (by simp)
  | perseveres hcontrol hstack halike => exact .of_ne (by simp) (by simp)
  | @takes t k w' sync hcontrol halike hacquire =>
      refine ⟨?_, by simp⟩
      rintro y t' - htop
      have hquest : e.control.quest? = some (t, k) := by
        rcases hcontrol with hcontrol | ⟨ticket, wakeAt, hcontrol⟩ <;> rw [hcontrol] <;> rfl
      have hactor : e.actor? w = some t := by
        rcases hcontrol with hcontrol | ⟨ticket, wakeAt, hcontrol⟩ <;>
          simp [Executor.actor?, hcontrol, Wait.quest?]
      rcases hfits.quest hquest with ⟨previous, hhead⟩ | ⟨hhead, -⟩
      · rw [hhead] at htop
        cases htop
        exact ⟨Sync.owner_of_acquire hacquire, hdriver t hactor⟩
      · rw [hhead] at htop
        cases htop
  | waits hcontrol halike hnext =>
      rcases hnext with rfl | ⟨ticket, wakeAt, rfl⟩ | ⟨failure, rfl⟩ <;>
        exact .of_ne (by simp) (by simp)
  | polls hcontrol hstack h => exact h.sure (hfits.polled hcontrol hstack) rfl
  | refuses hcontrol hstack =>
      exact .of_ne (by simp [World.giveFailure]) (by simp [World.giveFailure])
  | records hcontrol hstack hseat hmoves hlisted howner =>
      rw [hstack] at hframes
      exact .of_none (hframes.below (Frame.due?_of_seat? hseat).2).2 (by simp)
  | misses hcontrol hstack hseat hmoves hfree howner => exact .of_ne (by simp) (by simp)
  | releases hcontrol hunlock => exact .of_none (hfits.plain (by rw [hcontrol]; rfl)) (by simp)
  | fails hcontrol herror =>
      exact .of_ne (by simp [World.giveFailure]) (by simp [World.giveFailure])
  | continues hcontrol => exact .of_ne (by simp) (by simp)
  | acts hcontrol hmoves howner hgive hstack =>
      refine .of_none (hframes.extend (hfits.plain (by rw [hcontrol]; rfl)) hstack).2 ?_
      simp [hgive]
  | awaits hcontrol => exact .of_ne (by simp) (by simp)
  | grants hcontrol hop hfree =>
      exact .of_none (hfits.plain (by rw [hcontrol]; rfl)) (by simp [World.give])
  | ends hcontrol hstack hkind => exact .of_ne (by simp) (by simp)
  | turns hcontrol hstack hbottom halike hnext hstack' =>
      rcases hnext with ⟨op, hnext⟩ | ⟨result, hnext⟩ <;>
        exact .of_ne (by simp [hnext]) (by simp [hnext])

theorem Task.Begun.owner {base : List Frame} {actor : Option ThreadId} {t : ThreadId}
    (h : task.Begun w base actor) (howner : (task.world.sync.lock l).owner = some t) :
    (w.sync.lock l).owner = some t ∨ actor = some t ∧ task.control.hasTaken t l task.stack := by
  cases h with
  | launched h => exact .inl (h.alike.owner l ▸ howner)
  | @seated u k due base w' sync y halike hacquire hseat hstands =>
      rcases Sync.owner_after_acquire hacquire howner with ⟨rfl, rfl⟩ | hbefore
      · exact .inr ⟨rfl, Control.hasTaken_iff.mpr ⟨⟨y, rfl⟩, (Frame.due?_of_seat? hseat).1⟩⟩
      · exact .inl (halike.owner l ▸ hbefore)
  | blocked halike hseat hstands => exact .inl (halike.owner l ▸ howner)
  | releasing halike hheld hstands => exact .inl (halike.owner l ▸ howner)

/-- A thread comes to own a lock only by a step on its own behalf, which then has to record it. -/
theorem Advance.owner {t : ThreadId} (h : Advance me w e task) (hfits : e.control.Fits l e.stack)
    (hclean : e.tampered? w ≠ some l) (howner : (task.world.sync.lock l).owner = some t) :
    (w.sync.lock l).owner = some t ∨
      e.actor? w = some t ∧ task.control.hasTaken t l task.stack := by
  cases h with
  | begins hbase h => exact h.owner howner
  | passes hcontrol hstack halike hresult => exact .inl (halike.owner l ▸ howner)
  | retries hcontrol hstack halike => exact .inl (halike.owner l ▸ howner)
  | perseveres hcontrol hstack halike => exact .inl (halike.owner l ▸ howner)
  | @takes u k w' sync hcontrol halike hacquire =>
      have hquest : e.control.quest? = some (u, k) := by
        rcases hcontrol with hcontrol | ⟨ticket, wakeAt, hcontrol⟩ <;> rw [hcontrol] <;> rfl
      have hactor : e.actor? w = some u := by
        rcases hcontrol with hcontrol | ⟨ticket, wakeAt, hcontrol⟩ <;>
          simp [Executor.actor?, hcontrol, Wait.quest?]
      rcases Sync.owner_after_acquire hacquire howner with ⟨rfl, rfl⟩ | hbefore
      · rcases hfits.quest hquest with ⟨previous, hhead⟩ | ⟨-, hne⟩
        · exact .inr ⟨hactor, Control.hasTaken_iff.mpr ⟨⟨.unit, rfl⟩, by rw [hhead]; rfl⟩⟩
        · exact absurd rfl hne
      · exact .inl (halike.owner l ▸ hbefore)
  | waits hcontrol halike hnext => exact .inl (halike.owner l ▸ howner)
  | polls hcontrol hstack h => exact .inl (h.alike.owner l ▸ howner)
  | refuses hcontrol hstack => exact .inl howner
  | records hcontrol hstack hseat hmoves hlisted hsame => exact .inl (hsame l ▸ howner)
  | misses hcontrol hstack hseat hmoves hfree hsame => exact .inl (hsame l ▸ howner)
  | releases hcontrol hunlock => exact .inl (Sync.owner_of_unlockInternal hunlock howner)
  | fails hcontrol herror => exact .inl howner
  | continues hcontrol => exact .inl ((ConditionWait.steps _ _ _ _ _).owner howner)
  | acts hcontrol hmoves hnew hgive hstack =>
      rcases hnew t l howner with hold | htampered
      · exact .inl hold
      · exact absurd htampered hclean
  | awaits hcontrol => exact .inl ((World.alike_threadAndLock w _ _).owner l ▸ howner)
  | grants hcontrol hop hfree => exact .inl ((World.alike_conditionNamed w _).owner l ▸ howner)
  | ends hcontrol hstack hkind => exact .inl (Sync.owner_of_finishThread howner)
  | turns hcontrol hstack hbottom halike hnext hstack' => exact .inl (halike.owner l ▸ howner)

theorem Advance.recorded {t : ThreadId} (h : Advance me w e task)
    (hfits : e.control.Fits l e.stack) (hsure : e.control.Sure driver me l w.sync e.stack)
    (htaken : e.hasTaken t l) :
    task.control.hasTaken t l task.stack ∨ l ∈ (task.world.thread t).ownedLocks := by
  have hframes := hfits.frames
  obtain ⟨⟨y, hgive⟩, htop⟩ := Control.hasTaken_iff.mp htaken
  cases h with
  | begins hbase h =>
      cases hbase with
      | whole hfree =>
          rcases hfree with hempty | hplain
          · rw [hempty] at htop
            cases htop
          · rw [hgive] at hplain
            cases hplain
      | below hstack hframe hseat hquest =>
          rw [hstack] at htop
          exact absurd htop (by simp [Frame.due?_eq_none hseat hquest])
  | passes hcontrol hstack halike hresult =>
      rw [hgive] at hcontrol
      cases hcontrol
      obtain ⟨t', k, previous, rfl⟩ := hresult y rfl
      rw [hstack] at htop hframes
      cases htop
      exact .inl (Control.hasTaken_iff.mpr ⟨⟨y, rfl⟩, due?_top_of_seat? hframes.1⟩)
  | retries hcontrol hstack halike =>
      rw [hstack] at htop
      cases htop
  | records hcontrol hstack hseat hmoves hlisted howner =>
      rw [hstack, List.head?_cons, Option.bind_some, (Frame.due?_of_seat? hseat).1] at htop
      cases htop
      exact .inr hlisted
  | misses hcontrol hstack hseat hmoves hfree howner =>
      have howned := (hsure.taken hgive htop).1
      rw [hstack, List.head?_cons, Option.bind_some, (Frame.due?_of_seat? hseat).1] at htop
      cases htop
      exact absurd howned hfree
  | takes hcontrol | waits hcontrol =>
      rw [hgive] at hcontrol
      rcases hcontrol with hcontrol | ⟨ticket, wakeAt, hcontrol⟩ <;> cases hcontrol
  | perseveres hcontrol | polls hcontrol | refuses hcontrol | releases hcontrol | fails hcontrol
  | continues hcontrol | acts hcontrol | awaits hcontrol | grants hcontrol | ends hcontrol
  | turns hcontrol =>
      rw [hgive] at hcontrol
      cases hcontrol

namespace Machine

def isDriven (driver : ThreadId → Nat) (m : Machine) (me : Nat) : Bool :=
  (m.actor? me).all (driver · == me)

def spares (l : LockId) (m : Machine) (me : Nat) : Bool :=
  m.tampered? me != some l

/-- Whether the next step of executor `me` panics because a thread turns out not to hold the lock
`l` when it drops a hold or records the lock. -/
def isFatal (l : LockId) (m : Machine) (me : Nat) : Bool :=
  match m.executors[me]? with
  | none => false
  | some e =>
    match e.control, e.stack with
    | .releasing t k, _ =>
      k == l && match m.world.sync.unlockInternal t k with
        | .ok _ => false
        | .error _ => true
    | .give (.ok _), .acquiring t k :: _ => k == l && (m.world.sync.record? t k).isNone
    | .give (.ok _), .relocking t k holds _ :: _ =>
      k == l && ((m.world.sync.updateLock k (·.setHoldCount t holds)).record? t k).isNone
    | _, _ => false

/-- The owner of the lock `l` and the lists of all threads agree, but for the executor that has just
taken the lock. -/
structure Owned (driver : ThreadId → Nat) (l : LockId) (m : Machine) : Prop where
  fits : ∀ {i : Nat} {x : Executor}, m.executors[i]? = some x → x.control.Fits l x.stack
  sure : ∀ {i : Nat} {x : Executor}, m.executors[i]? = some x →
    x.control.Sure driver i l m.world.sync x.stack
  listed : ∀ {t}, l ∈ (m.world.thread t).ownedLocks → (m.world.sync.lock l).owner = some t
  recorded : ∀ {t}, (m.world.sync.lock l).owner = some t →
    l ∈ (m.world.thread t).ownedLocks ∨
      ∃ x, m.executors[driver t]? = some x ∧ x.hasTaken t l

variable {m : Machine}

private theorem fits_fresh {x : Executor} (h : x.Fresh) : x.control.Fits l x.stack := by
  have hquest : x.control.quest? = none := by
    rcases h.control with ⟨op, hcontrol⟩ | ⟨result, hcontrol⟩ <;> rw [hcontrol] <;> rfl
  rcases h.stack with hempty | ⟨running, bottom, hbottom, hstack⟩
  · rw [hempty]
    exact .of_none trivial rfl hquest
  · obtain ⟨hnone, hdue⟩ := Frame.places_of_isBottom hbottom
    rw [hstack]
    refine .of_none ⟨hdue, ?_, trivial⟩ rfl hquest
    rw [hnone]
    rfl

private theorem sure_fresh {x : Executor} {i : Nat} {s : Sync Action} (h : x.Fresh) :
    x.control.Sure driver i l s x.stack := by
  rcases h.control with ⟨op, hcontrol⟩ | ⟨result, hcontrol⟩ <;>
    exact .of_ne (by simp [hcontrol]) (by simp [hcontrol])

theorem actor?_ne_of_isDriven {t : ThreadId} (hdriven : m.isDriven driver me) (ht : driver t ≠ me) :
    m.actor? me ≠ some t := by
  intro hactor
  simp [isDriven, hactor, ht] at hdriven

theorem Owned.step (h : m.Owned driver l) (hdriven : m.isDriven driver me)
    (hspares : m.spares l me) : (m.step me).Owned driver l := by
  rcases m.step_cases me with hsame | ⟨e, he, e', spawned, hadvance, hexecutors, hfresh⟩
  · rw [hsame]
    exact h
  have hdriver : ∀ t, e.actor? m.world = some t → driver t = me := by
    intro t hactor
    simpa [isDriven, actor?, he, hactor] using hdriven
  have hclean : e.tampered? m.world ≠ some l := by
    simpa [spares, tampered?, he] using hspares
  have hme : (m.step me).executors[me]? = some e' := by
    have hlength : me < m.executors.length := (List.getElem?_eq_some_iff.mp he).1
    rw [hexecutors, List.getElem?_append_left (by simpa using hlength),
      List.getElem?_set_self hlength]
  -- An executor after the step has taken it, was there before, or is new.
  have hafter : ∀ {i : Nat} {x : Executor}, (m.step me).executors[i]? = some x →
      i = me ∧ x = e' ∨ i ≠ me ∧ m.executors[i]? = some x ∨ x.Fresh := by
    intro i x hx
    by_cases hi : i = me
    · subst hi
      exact .inl ⟨rfl, Option.some.inj (hx.symm.trans hme)⟩
    · rcases executors_step_cases hx with ⟨hold, -⟩ | ⟨-, rfl, -⟩ | hnew
      · exact .inr (.inl ⟨hi, hold⟩)
      · exact absurd rfl hi
      · exact .inr (.inr hnew)
  obtain ⟨s, halike, hmove⟩ := m.lockMove_step me
  refine ⟨?_, ?_, ?_, ?_⟩
  · intro i x hx
    rcases hafter hx with ⟨rfl, rfl⟩ | ⟨-, hold⟩ | hnew
    · exact hadvance.fits (h.fits he) hclean
    · exact h.fits hold
    · exact fits_fresh hnew
  · intro i x hx
    rcases hafter hx with ⟨rfl, rfl⟩ | ⟨hi, hold⟩ | hnew
    · exact hadvance.sure (h.fits he) (h.sure he) hdriver
    · -- What another executor relies on belongs to a thread that this one does not drive.
      have hkeep : ∀ {t}, (m.world.sync.lock l).owner = some t ∧ driver t = i →
          ((m.step me).world.sync.lock l).owner = some t ∧ driver t = i := by
        rintro t ⟨howner, rfl⟩
        exact ⟨(keeps_lock (actor?_ne_of_isDriven hdriven hi) howner).1, rfl⟩
      exact ⟨fun hgive htop => hkeep ((h.sure hold).taken hgive htop),
        fun hreleasing => hkeep ((h.sure hold).releasing hreleasing)⟩
    · exact sure_fresh hnew
  · intro t hmem
    refine hmove.listed (by simpa [spares] using hspares) ?_ hmem
    rw [halike.owned t, halike.owner l]
    exact h.listed
  · intro t howner
    rcases hadvance.owner (h.fits he) hclean howner with hbefore | ⟨hactor, htaken⟩
    · rcases h.recorded hbefore with hmem | ⟨x, hx, htaken⟩
      · left
        refine hmove.keeps_listed ?_ howner
        rw [halike.owned t]
        exact hmem
      · by_cases ht : driver t = me
        · rw [ht, he] at hx
          cases hx
          rcases hadvance.recorded (h.fits he) (h.sure he) htaken with hstill | hlisted
          · exact .inr ⟨e', ht ▸ hme, hstill⟩
          · exact .inl hlisted
        · exact .inr ⟨x, executors_step_of_ne ht hx, htaken⟩
    · exact .inr ⟨e', hdriver t hactor ▸ hme, htaken⟩

structure Tidy (m : Machine) : Prop where
  nodup : ∀ t, (m.world.thread t).ownedLocks.Nodup
  sane : ∀ l, (m.world.sync.lock l).Sane

theorem Tidy.step (h : m.Tidy) (me : Nat) : (m.step me).Tidy := by
  obtain ⟨s, halike, hmove⟩ := m.lockMove_step me
  constructor
  · intro t
    apply hmove.nodup
    rw [halike.owned t]
    exact h.nodup t
  · intro l
    apply hmove.sane
    rw [Lock.Sane, halike.owner l, halike.holds l]
    exact h.sane l

private theorem unlockInternal_of_owner {s : Sync Action} {t : ThreadId}
    (howner : (s.lock l).owner = some t) : ∃ s', s.unlockInternal t l = .ok s' := by
  simp [Sync.unlockInternal, Lock.unlock, howner]

private theorem isSome_record?_of_owner {s : Sync Action} {t : ThreadId}
    (howner : (s.lock l).owner = some t) : (s.record? t l).isSome := by
  simp [Sync.record?, Sync.isHeld_iff.mpr howner]

theorem Owned.isFatal_eq_false (h : m.Owned driver l) (me : Nat) : m.isFatal l me = false := by
  unfold isFatal
  split
  · rfl
  · next e he =>
    have hsure := h.sure he
    split
    · next stack t k hcontrol =>
      by_cases hk : k = l
      · subst hk
        obtain ⟨s', hunlock⟩ := unlockInternal_of_owner (hsure.releasing hcontrol).1
        simp [hunlock]
      · simp [hk]
    · next y t k base hcontrol hstack =>
      by_cases hk : k = l
      · subst hk
        have howner := (hsure.taken hcontrol (by rw [hstack]; rfl)).1
        simpa using isSome_record?_of_owner howner
      · simp [hk]
    · next y t k holds pending base hcontrol hstack =>
      by_cases hk : k = l
      · subst hk
        have howner := (hsure.taken hcontrol (by rw [hstack]; rfl)).1
        have hcounted : (((m.world.sync.updateLock k (·.setHoldCount t holds)).lock k).owner =
            some t) := by
          rw [Sync.lock_updateLock, if_pos rfl, Lock.owner_setHoldCount]
          exact howner
        simpa using isSome_record?_of_owner hcounted
      · simp [hk]
    · rfl

private theorem start_free (script : Script) :
    (∀ t, (script.start.world.thread t).ownedLocks = []) ∧
      ∀ l, (script.start.world.sync.lock l).owner = none ∧
        (script.start.world.sync.lock l).holds = 0 := by
  have hstart := script.alike_start
  exact ⟨hstart.owned, fun l => ⟨hstart.owner l, hstart.holds l⟩⟩

theorem Owned.start (script : Script) : script.start.Owned driver l := by
  obtain ⟨hlists, hlocks⟩ := start_free script
  refine ⟨fun hx => fits_fresh (Script.fresh_start hx),
    fun hx => sure_fresh (Script.fresh_start hx), ?_, ?_⟩
  · intro t hmem
    rw [hlists t] at hmem
    cases hmem
  · intro t howner
    rw [(hlocks l).1] at howner
    cases howner

theorem Tidy.start (script : Script) : script.start.Tidy := by
  obtain ⟨hlists, hlocks⟩ := start_free script
  refine ⟨fun t => ?_, fun l => ?_⟩
  · rw [hlists t]
    exact List.nodup_nil
  · simp [Lock.Sane, hlocks l]

end Machine

/-- The owner of a mutex and the lists of locks on record agree. In every run in which each thread
is driven by one executor and nobody works on the bare lock `l`: unless `t` has taken the lock and
not recorded it yet, the lock is on the list of `t` exactly if `t` owns it; no list holds a lock
twice; the lock has no owner exactly if it has no holds; a step on behalf of anybody but the owner
leaves owner and holds as they are; and no step finds that a thread does not hold the lock when it
has to. -/
theorem ownership_agrees (script : Script) (moves : List Move) (driver : ThreadId → Nat)
    (l : LockId)
    (hrun : script.start.along (fun m me => m.isDriven driver me && m.spares l me) moves) :
    let m := script.start.follow moves
    let lock := m.world.sync.lock l
    (∀ t, (∀ e ∈ m.executors, e.hasTaken t l = false) →
        (l ∈ (m.world.thread t).ownedLocks ↔ lock.owner = some t)) ∧
      (∀ t, (m.world.thread t).ownedLocks.Nodup) ∧
      (lock.owner = none ↔ lock.holds = 0) ∧
      (∀ me t, lock.owner = some t → m.actor? me ≠ some t →
        ((m.step me).world.sync.lock l).owner = some t ∧
          ((m.step me).world.sync.lock l).holds = lock.holds) ∧
      ∀ me, m.isFatal l me = false := by
  intro m lock
  have howned : m.Owned driver l := by
    refine Machine.follow_keeps (P := Machine.Owned driver l) ?_ ?_ hrun (.start script)
    · intro m me horderly h
      simp only [Bool.and_eq_true] at horderly
      exact h.step horderly.1 horderly.2
    · intro m millis h
      exact ⟨h.fits, h.sure, h.listed, h.recorded⟩
  have htidy : m.Tidy := by
    refine Machine.follow_keeps (P := Machine.Tidy) ?_ ?_ hrun (.start script)
    · intro m me _ h
      exact h.step me
    · intro m millis h
      exact ⟨h.nodup, h.sane⟩
  refine ⟨?_, htidy.nodup, htidy.sane l, ?_, howned.isFatal_eq_false⟩
  · intro t hquiet
    refine ⟨howned.listed, ?_⟩
    intro howner
    rcases howned.recorded howner with hmem | ⟨x, hx, htaken⟩
    · exact hmem
    · rw [hquiet x (List.mem_of_getElem? hx)] at htaken
      cases htaken
  · intro me t howner hactor
    exact Machine.keeps_lock hactor howner

/-- A thread is spawned while the mutex is held, and the mutex is unlocked when it waits for it. -/
def contention : Script where
  options := {}
  watched := []
  steps := [.mk false (.call (.lock "main" "m")),
    .mk false (.call (.spawn "other" none
      (.mk [.mk false (.call (.lock "other" "m"))] none none .null))),
    .mk false (.mutex (.unlock "main" "m"))]

def contentionMoves : List Move :=
  List.replicate 8 (.step 0) ++ List.replicate 2 (.step 1) ++ List.replicate 2 (.step 0) ++
    List.replicate 3 (.step 1)

theorem ownership_agrees_contention :
    let m := contention.start.follow contentionMoves
    contention.start.along (fun m me => m.isDriven id me && m.spares 0 me) contentionMoves ∧
      (m.world.sync.lock 0).owner = some 1 ∧ 0 ∈ (m.world.thread 1).ownedLocks ∧
      ∀ me, m.isFatal 0 me = false := by
  intro m
  have hrun : contention.start.along (fun m me => m.isDriven id me && m.spares 0 me)
      contentionMoves := by decide +kernel
  have howner : (m.world.sync.lock 0).owner = some 1 := by decide +kernel
  have hquiet : ∀ e ∈ m.executors, e.hasTaken 1 0 = false := by decide +kernel
  obtain ⟨hagree, -, -, -, hfatal⟩ := ownership_agrees contention contentionMoves id 0 hrun
  exact ⟨hrun, howner, (hagree 1 hquiet).mpr howner, hfatal⟩

end RubyRuntime.Session
