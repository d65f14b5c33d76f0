import RubyRuntime.Proofs.Session.Runs

/-!
# What stands above a frame

While a call is waiting for what it has begun, its frame stays where it is. The frames above it come
and go, and nothing below it changes but for reported events, until an outcome is given to it. A
call has returned when it gives its outcome to the frames that it was made on.
-/
namespace RubyRuntime.Session

/-- Whether only an outcome can take the frame off a stack. -/
def Frame.isMark : Frame → Bool
  | .waitPolled _ _ | .polled _ | .polling _ | .timing _ | .entering _ _ _ _ | .guarding _ _ _
  | .finalizing _ _ | .iterating _ => true
  | _ => false

theorem Frame.isBottom_of_isMark {frame : Frame} (h : frame.isMark) : frame.isBottom = false := by
  cases frame <;> first | rfl | cases h

/-- The stack is `frame :: base`, with events reported to the base, below frames that do not belong
to the bottom. -/
def Above (frame : Frame) (base : List Frame) (stack : List Frame) : Prop :=
  ∃ above below, stack = above ++ frame :: below ∧
    below.map Frame.shape = base.map Frame.shape ∧ ∀ f ∈ above, f.isInner

theorem Frame.eq_of_shape {frame frame' : Frame} (h : frame'.shape = frame.shape)
    (hframe : ∀ running, frame ≠ .step running) : frame' = frame := by
  cases frame with
  | step running => exact absurd rfl (hframe running)
  | _ => cases frame' <;> first | exact h | cases h

theorem Extends.above {frame : Frame} {base stack : List Frame}
    (h : Extends Frame.isInner stack (frame :: base)) (hframe : ∀ running, frame ≠ .step running) :
    Above frame base stack := by
  obtain ⟨above, below, rfl, hbelow, habove⟩ := h
  cases below with
  | nil => simp at hbelow
  | cons first below =>
      simp only [List.map_cons, List.cons.injEq] at hbelow
      rw [Frame.eq_of_shape hbelow.1 hframe]
      exact ⟨above, below, rfl, hbelow.2, habove⟩

theorem Above.length_lt {frame : Frame} {base stack : List Frame} (h : Above frame base stack) :
    base.length < stack.length := by
  obtain ⟨above, below, rfl, hbelow, -⟩ := h
  have hlength : below.length = base.length := by simpa using congrArg List.length hbelow
  simp only [List.length_append, List.length_cons]
  omega

theorem Above.extends {frame : Frame} {base stack stack' : List Frame}
    (h : Extends Frame.isInner stack' stack) (habove : Above frame base stack)
    (hframe : ∀ running, frame ≠ .step running) : Above frame base stack' := by
  obtain ⟨above, below, rfl, hbelow, hinner⟩ := habove
  obtain ⟨above', below', rfl, hbelow', hinner'⟩ :=
    (h.drop Frame.isInner_shape hinner).above hframe
  exact ⟨above', below', rfl, hbelow'.trans hbelow, hinner'⟩

theorem Task.Launched.above {task : Task} {w : World} {frame : Frame} {base below : List Frame}
    (h : task.Launched w (frame :: below)) (hframe : ∀ running, frame ≠ .step running)
    (hbelow : below.map Frame.shape = base.map Frame.shape) : Above frame base task.stack := by
  have hextends := h.stands.mono fun f hf => Frame.isInner_of_isOrdinary hf
  obtain ⟨above, below', hstack, hbelow', hinner⟩ := hextends.above hframe
  exact ⟨above, below', hstack, hbelow'.trans hbelow, hinner⟩

theorem Above.pop {frame top : Frame} {base rest stack : List Frame}
    (h : Above frame base (top :: rest)) (hframe : ∀ running, frame ≠ .step running)
    (htop : top = frame → rest.map Frame.shape ≠ base.map Frame.shape)
    (hextends : Extends Frame.isInner stack rest) : Above frame base stack ∧ top.isInner := by
  obtain ⟨above, below, hstack, hbelow, hinner⟩ := h
  cases above with
  | nil =>
      injection hstack with hsame hrest
      subst hrest
      exact absurd hbelow (htop hsame)
  | cons first above =>
      injection hstack with hsame hrest
      subst hsame
      refine ⟨Above.extends hextends ⟨above, below, hrest, hbelow, ?_⟩ hframe,
        hinner top List.mem_cons_self⟩
      exact fun f hf => hinner f (List.mem_cons_of_mem _ hf)

theorem exists_below_of_shape {frames base stack : List Frame}
    (h : stack.map Frame.shape = (frames ++ base).map Frame.shape)
    (hframes : ∀ f ∈ frames, ∀ running, f ≠ .step running) :
    ∃ below, stack = frames ++ below ∧ below.map Frame.shape = base.map Frame.shape := by
  induction frames generalizing stack with
  | nil => exact ⟨stack, rfl, h⟩
  | cons frame frames ih =>
      cases stack with
      | nil => cases h
      | cons first rest =>
          simp only [List.cons_append, List.map_cons, List.cons.injEq] at h
          obtain ⟨below, rfl, hbelow⟩ := ih h.2 fun f hf => hframes f (List.mem_cons_of_mem _ hf)
          rw [Frame.eq_of_shape h.1 (hframes frame List.mem_cons_self)]
          exact ⟨below, rfl, hbelow⟩

theorem Task.Begun.extends {task : Task} {w : World} {stack : List Frame}
    {actor : Option ThreadId} (h : task.Begun w stack actor) :
    Extends Frame.isInner task.stack stack := by
  have hseat : ∀ {due : Frame} {place}, due.seat? = some place → due.isInner := by
    intro due place h
    cases due <;> cases h <;> rfl
  have hordinary : ∀ {base : List Frame}, Extends Frame.isOrdinary base stack →
      Extends Frame.isInner base stack :=
    fun h => h.mono fun f hf => Frame.isInner_of_isOrdinary hf
  cases h with
  | launched h => exact hordinary h.stands
  | seated y halike hacquire hdue hbase => exact (hordinary hbase).push (hseat hdue)
  | blocked halike hdue hbase => exact ((hordinary hbase).push (hseat hdue)).push rfl
  | releasing halike hheld hbase => exact hordinary hbase

/-- A step keeps what is above a mark above it, unless an outcome is given to the mark. -/
theorem Advance.above {me : Nat} {w : World} {e : Executor} {task : Task} {frame : Frame}
    {base : List Frame} (h : Advance me w e task) (hmark : frame.isMark)
    (habove : Above frame base e.stack)
    (hgive : ∀ outcome below, e.control = .give outcome →
      below.map Frame.shape = base.map Frame.shape → e.stack ≠ frame :: below) :
    Above frame base task.stack := by
  have hframe : ∀ running, frame ≠ .step running := by
    rintro running rfl
    cases hmark
  have hsame : ∀ {stack : List Frame}, Extends Frame.isInner stack e.stack →
      Above frame base stack :=
    fun h => Above.extends h habove hframe
  have hpop : ∀ {top : Frame} {rest stack : List Frame}, e.stack = top :: rest →
      top ≠ frame ∨ (∃ outcome, e.control = .give outcome) →
      Extends Frame.isInner stack rest → Above frame base stack ∧ top.isInner := by
    intro top rest stack hstack htop hextends
    refine (hstack ▸ habove).pop hframe ?_ hextends
    rintro rfl hrest
    rcases htop with htop | ⟨outcome, hcontrol⟩
    · exact htop rfl
    · exact hgive outcome rest hcontrol hrest hstack
  cases h with
  | begins hbase h =>
      cases hbase with
      | whole hfree => exact hsame h.extends
      | below hstack hpopped hseat hquest =>
          refine (hpop hstack ?_ h.extends).1
          rcases hpopped with hcontrol | ⟨run, rfl⟩
          · exact .inr hcontrol
          · left
            rintro rfl
            cases hmark
  | passes hcontrol hstack halike hresult =>
      exact (hpop hstack (.inr ⟨_, hcontrol⟩) (.refl _)).1
  | retries hcontrol hstack halike =>
      exact (hpop hstack (.inr ⟨_, hcontrol⟩) ((Extends.refl _).push rfl)).1
  | perseveres hcontrol hstack halike =>
      exact (hpop hstack (.inr ⟨_, hcontrol⟩) (((Extends.refl _).push rfl).push rfl)).1
  | takes hcontrol halike hacquire => exact habove
  | waits hcontrol halike hnext => exact habove
  | polls hcontrol hstack h =>
      refine (hpop hstack (.inl ?_) ?_).1
      · rintro rfl
        cases hmark
      · exact (h.stands.mono fun f hf => Frame.isInner_of_isOrdinary hf).under
          Frame.isInner_shape rfl
  | refuses hcontrol hstack => exact habove
  | records hcontrol hstack hseat hmoves hlisted howner =>
      exact (hpop hstack (.inr ⟨_, hcontrol⟩) (.refl _)).1
  | misses hcontrol hstack hseat hmoves hfree howner =>
      exact (hpop hstack (.inr ⟨_, hcontrol⟩) (.refl _)).1
  | releases hcontrol hunlock => exact habove
  | fails hcontrol herror => exact habove
  | continues hcontrol => exact habove
  | acts hcontrol hmoves howner hgive hstack =>
      exact hsame (hstack.mono fun f hf => Frame.isInner_of_isOrdinary hf)
  | awaits hcontrol => exact hsame ((Extends.refl _).push rfl)
  | grants hcontrol hop hfree => exact habove
  | @ends report result failure run t base hcontrol hstack hkind =>
      -- The body of a thread stands at the bottom.
      have hbottom : (Frame.body run).isInner = false := by
        simp [Frame.isInner, Frame.isBottom, hkind]
      have hne : Frame.body run ≠ frame := by
        rintro rfl
        cases hmark
      have hinner := (hpop hstack (.inl hne) (Extends.refl base)).2
      rw [hbottom] at hinner
      cases hinner
  | @turns report failure bottom base task hcontrol hstack hbottom halike hnext hstack' =>
      have hne : bottom ≠ frame := by
        rintro rfl
        rw [Frame.isBottom_of_isMark hmark] at hbottom
        cases hbottom
      have hinner := (hpop hstack (.inl hne) (Extends.refl base)).2
      rw [Frame.isInner, hbottom] at hinner
      cases hinner

def Executor.above (height : Nat) (e : Executor) : List Frame :=
  e.stack.take (e.stack.length - height)

/-- The outcome of the call that was made with `height` frames on the stack, once it is over. -/
def Machine.returned? (me height : Nat) (m : Machine) : Option Outcome :=
  m.executors[me]?.bind fun e =>
    match e.control, e.above height with
    | .give outcome, [] => some outcome
    | _, _ => none

theorem getLast?_ne_error {outcomes : List Outcome} (h : ∀ o ∈ outcomes, o.isOk)
    (failure : Failure) : outcomes.getLast? ≠ some (.error failure) := by
  intro hlast
  cases h _ (List.mem_of_getLast? hlast)

namespace Machine

def isOpen (me height : Nat) (m : Machine) (i : Nat) : Bool :=
  i != me || (m.returned? me height).isNone

/-- The outcome that the next step of executor `i` hands to the call that executor `me` has made
with `height` frames on its stack, by what this call has begun. -/
def blockOutcomes (me height : Nat) (m : Machine) (i : Nat) : List Outcome :=
  if i = me then (m.returned? me (height + 1)).toList else []

/-- The next step of executor `me` begins to run a body in the world `w`, above a frame that stands
on `height` others and will receive the outcome. -/
def Launches (me height : Nat) (w : World) (run : BodyRun) (frame : Frame) (m : Machine) : Prop :=
  ∃ e below, m.executors[me]? = some e ∧ below.length = height ∧
    m.step me = m.put me e.current (run.proceed w (frame :: below))

variable {me : Nat} {m : Machine} {e : Executor} {base : List Frame}

theorem length_of_shape {below : List Frame}
    (h : below.map Frame.shape = base.map Frame.shape) : below.length = base.length := by
  simpa using congrArg List.length h

theorem step_give {outcome : Outcome} {frame : Frame} {stack : List Frame}
    (he : m.executors[me]? = some e) (hcontrol : e.control = .give outcome)
    (hstack : e.stack = frame :: stack) :
    m.step me = m.put me e.current (frame.receive m.world stack outcome) := by
  simp [step, he, hcontrol, hstack]

theorem above_eq {frames below : List Frame} (hstack : e.stack = frames ++ below)
    (hbelow : below.map Frame.shape = base.map Frame.shape) : e.above base.length = frames := by
  simp [Executor.above, hstack, length_of_shape hbelow]

theorem returned?_eq_some {frames below : List Frame} {outcome : Outcome}
    (he : m.executors[me]? = some e) (hstack : e.stack = frames ++ below)
    (hbelow : below.map Frame.shape = base.map Frame.shape) :
    m.returned? me base.length = some outcome ↔ e.control = .give outcome ∧ frames = [] := by
  simp only [returned?, he, Option.bind_some, above_eq hstack hbelow]
  split
  · next given hcontrol => simp [hcontrol]
  · next hother =>
    constructor
    · intro h
      cases h
    · rintro ⟨hcontrol, hframes⟩
      exact absurd hframes (hother outcome hcontrol)

theorem returned?_of_base {outcome : Outcome} (he : m.executors[me]? = some e)
    (hstack : e.stack.map Frame.shape = base.map Frame.shape)
    (hcontrol : e.control = .give outcome) : m.returned? me base.length = some outcome := by
  have hnone : e.stack = [] ++ e.stack := rfl
  exact (returned?_eq_some he hnone hstack).mpr ⟨hcontrol, rfl⟩

theorem returned?_of_frame (above : List Frame) {frame : Frame} {below : List Frame}
    (he : m.executors[me]? = some e) (hstack : e.stack = above ++ frame :: below)
    (hbelow : below.map Frame.shape = base.map Frame.shape) :
    m.returned? me base.length = none := by
  have hframes : e.stack = (above ++ [frame]) ++ below := by simp [hstack]
  cases hreturned : m.returned? me base.length with
  | none => rfl
  | some outcome => simp [returned?_eq_some he hframes hbelow] at hreturned

theorem returned?_of_above {frame : Frame} (he : m.executors[me]? = some e)
    (habove : Above frame base e.stack) : m.returned? me base.length = none := by
  obtain ⟨above, below, hstack, hbelow, -⟩ := habove
  exact returned?_of_frame above he hstack hbelow

theorem above_step {frame : Frame} (he : m.executors[me]? = some e) (hmark : frame.isMark)
    (habove : Above frame base e.stack)
    (hbusy : ∀ outcome, e.control = .give outcome → e.above base.length ≠ [frame]) :
    ∃ e', (m.step me).executors[me]? = some e' ∧ Above frame base e'.stack := by
  rcases m.step_cases me with hsame | ⟨e', he', next, spawned, hadvance, hexecutors, -⟩
  · rw [hsame]
    exact ⟨e, he, habove⟩
  · obtain rfl : e = e' := Option.some.inj (he.symm.trans he')
    refine ⟨next, ?_, hadvance.above hmark habove ?_⟩
    · have hlength : me < m.executors.length := (List.getElem?_eq_some_iff.mp he).1
      rw [hexecutors, List.getElem?_append_left (by simpa using hlength),
        List.getElem?_set_self hlength]
    · intro outcome below hcontrol hbelow hstack
      have hframes : e.stack = [frame] ++ below := hstack
      exact hbusy outcome hcontrol (above_eq hframes hbelow)

theorem handed_or_above {frame : Frame} (he : m.executors[me]? = some e) (hmark : frame.isMark)
    (habove : Above frame base e.stack) :
    (∃ outcome below, m.returned? me (base.length + 1) = some outcome ∧
        e.control = .give outcome ∧ e.stack = frame :: below ∧
        below.map Frame.shape = base.map Frame.shape) ∨
      m.returned? me (base.length + 1) = none ∧
        ∃ e', (m.step me).executors[me]? = some e' ∧ Above frame base e'.stack := by
  obtain ⟨above, below, hframes, hbelow, hinner⟩ := habove
  -- What the call has begun was made with the frame of the call on the stack.
  have hheight : (frame :: below).map Frame.shape = (frame :: base).map Frame.shape := by
    simp [hbelow]
  have hover : ∀ outcome, m.returned? me (base.length + 1) = some outcome ↔
      e.control = .give outcome ∧ above = [] :=
    fun outcome => returned?_eq_some he hframes hheight
  cases hreturned : m.returned? me (base.length + 1) with
  | some outcome =>
      obtain ⟨hgive, rfl⟩ := (hover outcome).mp hreturned
      exact .inl ⟨outcome, below, rfl, hgive, hframes, hbelow⟩
  | none =>
      refine .inr ⟨rfl, above_step he hmark ⟨above, below, hframes, hbelow, hinner⟩ ?_⟩
      intro outcome hgive htop
      have hwhole : e.stack = (above ++ [frame]) ++ below := by simp [hframes]
      rw [above_eq hwhole hbelow] at htop
      have hnone : above = [] := by simpa using htop
      cases hreturned.symm.trans ((hover outcome).mpr ⟨hgive, hnone⟩)

/-- A waiting call stands alone above its base only when it is handed an outcome. -/
theorem above_ne_singleton {frame : Frame} {outcome : Outcome} (he : m.executors[me]? = some e)
    (habove : Above frame base e.stack) (hbusy : m.returned? me (base.length + 1) = none)
    (hcontrol : e.control = .give outcome) (top : Frame) : e.above base.length ≠ [top] := by
  obtain ⟨above, below, hstack, hbelow, -⟩ := habove
  have hheight : (frame :: below).map Frame.shape = (frame :: base).map Frame.shape := by
    simp [hbelow]
  have hframes : e.stack = (above ++ [frame]) ++ below := by simp [hstack]
  rw [above_eq hframes hbelow]
  intro hone
  have hnone : above = [] := by
    have hlength := congrArg List.length hone
    simpa using hlength
  cases hbusy.symm.trans ((returned?_eq_some he hstack hheight).mpr ⟨hcontrol, hnone⟩)

end Machine

end RubyRuntime.Session
