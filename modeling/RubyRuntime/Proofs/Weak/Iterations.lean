import RubyRuntime.Proofs.Session.Marks
import RubyRuntime.Proofs.Weak.Histories

/-!
# Iterations over weak maps

An iteration calls its block with the pairs that were alive when it began. The block may run any
steps, also on the same map, and other executors go on meanwhile. The iteration is followed by the
frame that it leaves on the stack while its block runs. The main result is that a weak map shows the
live pairs that were written last, and that an iteration runs its block for these in order until the
block fails.
-/
namespace RubyRuntime.Session

def Yielded.item : Yielded → Value × Value → List Value
  | pairs, (k, v) => [k, v]
  | keys, (k, _) => [k]
  | values, (_, v) => [v]

def World.livePairs (held : List ObjectRef) (wm : String) (w : World) : List (Value × Value) :=
  let (i, w) := w.weakMapNamed wm
  (w.weakMap i).pairs (w.isAlive held)

def World.listed (held : List ObjectRef) (wm : String) (w : World) : World :=
  ((w.weakMapNamed wm).2.weakPairs held (w.weakMapNamed wm).1).2

/-- What call `n` of a block runs: its steps, at the end of which one of the calls fails. -/
def callOf (block : Block Step) (n : Nat) : BodyRun where
  kind := .block n block.steps.isSome
  remaining := block.steps.getD []
  ending := ⟨if n = block.raiseAt then block.raises else none, none, .null⟩

namespace World

variable (w : World) (held : List ObjectRef) (stack : List Frame) {wm : String} {what : Yielded}
  {block : Block Step} {iteration : Iteration}

theorem startEach_eq_nextItem :
    w.startEach held stack wm what (some block) =
      (w.listed held wm).nextItem stack
        { items := (w.livePairs held wm).map what.item, block } := by
  cases what <;> rfl

theorem objects_listed : (w.listed held wm).names.objects = w.names.objects := by
  simp only [listed, weakPairs, weakMapNamed, setWeakMap]
  split <;> rfl

theorem nameOf?_eq {w w' : World} (h : w'.names.objects = w.names.objects) :
    w'.nameOf? = w.nameOf? := by
  funext o
  simp only [nameOf?, h]

theorem reportItems_eq {w w' : World} (h : w'.names.objects = w.names.objects) :
    w'.reportItems = w.reportItems := by
  have hreport : w'.report = w.report := by
    funext v
    cases v <;> simp only [report, nameOf?_eq h]
  funext items
  simp only [reportItems, hreport]

theorem nextItem_nil (h : iteration.items = []) :
    w.nextItem stack iteration = w.give (reportCalls iteration.calls stack)
      (.report (.record [("yielded", Report.sorted iteration.yielded.reverse)])) := by
  simp only [nextItem, h]

theorem nextItem_cons {item : List Value} {rest : List (List Value)}
    (h : iteration.items = item :: rest) :
    w.nextItem stack iteration = (callOf iteration.block iteration.calls).proceed w
      (.iterating ⟨item, rest, w.reportItems item :: iteration.yielded, iteration.block,
        iteration.calls + 1⟩ :: stack) := by
  simp only [nextItem, h]
  rfl

end World

/-- What an iteration over some items gives that has visited some of them with some outcomes: a
result if all have been visited and nothing has failed, and the failure of the last visit if all
before have succeeded. -/
inductive IterationResult (items : List (List Value)) :
    List (List Value) → List Report → List Outcome → Outcome → Prop where
  | done {shown : List Report} {outcomes : List Outcome} (hok : ∀ o ∈ outcomes, o.isOk)
    (hlength : items.length = outcomes.length) :
    IterationResult items items shown outcomes
      (.ok (.report (.record [("yielded", Report.sorted shown)])))
  | failed {visited : List (List Value)} {shown : List Report} {outcomes : List Outcome}
    {failure : Failure} (hok : ∀ o ∈ outcomes, o.isOk)
    (hlength : visited.length = outcomes.length + 1) (hvisited : visited <+: items) :
    IterationResult items visited shown (outcomes ++ [.error failure]) (.error failure)

/-- Where an iteration that was made on `base` has got to: its block is running, or it has
returned. -/
inductive IterationStage (block : Block Step) (items : List (List Value)) (base : List Frame) :
    List (List Value) → List Report → List Outcome → Control → List Frame → Prop where
  | running (rest : List (List Value)) (current : List Value) {visited : List (List Value)}
    {shown : List Report} {outcomes : List Outcome} {control : Control} {stack : List Frame}
    (hok : ∀ o ∈ outcomes, o.isOk) (hlength : visited.length = outcomes.length + 1)
    (hitems : visited ++ rest = items)
    (habove : Above (.iterating ⟨current, rest, shown.reverse, block, visited.length⟩) base stack) :
    IterationStage block items base visited shown outcomes control stack
  | returned {visited : List (List Value)} {shown : List Report} {outcomes : List Outcome}
    {outcome : Outcome} {stack : List Frame}
    (hresult : IterationResult items visited shown outcomes outcome)
    (hbelow : stack.map Frame.shape = base.map Frame.shape) :
    IterationStage block items base visited shown outcomes (.give outcome) stack

namespace Machine

def visits (me height : Nat) (m : Machine) (i : Nat) : List (List Value) :=
  if i = me then
    match m.executors[me]? with
    | some e =>
      match e.control, e.above height with
      | .give (.ok _), [.iterating iteration] => iteration.items.head?.toList
      | .perform (.call (.each wm what (some _))), _ =>
        if e.stack.length + 1 = height then
          ((m.world.livePairs m.held wm).map what.item).head?.toList
        else []
      | _, _ => []
    | none => []
  else []

def shows (me height : Nat) (m : Machine) (i : Nat) : List Report :=
  (m.visits me height i).map m.world.reportItems

/-- The iteration over `items` that executor `me` has made on `base` has visited some of them, the
calls that are over having come to the given outcomes. -/
def Iterates (block : Block Step) (items : List (List Value)) (base : List Frame) (me : Nat)
    (visited : List (List Value)) (shown : List Report) (outcomes : List Outcome) (m : Machine) :
    Prop :=
  ∃ e, m.executors[me]? = some e ∧
    IterationStage block items base visited shown outcomes e.control e.stack

variable {m : Machine} {me : Nat} {e : Executor} {base below : List Frame} {block : Block Step}
  {items visited rest : List (List Value)} {current : List Value} {shown : List Report}
  {outcomes : List Outcome}

private theorem visits_self (he : m.executors[me]? = some e) (height : Nat) :
    m.visits me height me =
      match e.control, e.above height with
      | .give (.ok _), [.iterating iteration] => iteration.items.head?.toList
      | .perform (.call (.each wm what (some _))), _ =>
        if e.stack.length + 1 = height then
          ((m.world.livePairs m.held wm).map what.item).head?.toList
        else []
      | _, _ => [] := by
  simp [visits, he]

private theorem visits_of_busy {frame : Frame} (he : m.executors[me]? = some e)
    (habove : Above frame base e.stack) (hbusy : m.returned? me (base.length + 1) = none) :
    m.visits me base.length me = [] := by
  rw [visits_self he]
  split
  · next y iteration hcontrol hone =>
    exact absurd hone (above_ne_singleton he habove hbusy hcontrol _)
  · exact if_neg (Nat.ne_of_gt (Nat.lt_succ_of_lt habove.length_lt))
  · rfl

private theorem iterates_nextItem (visited : List (List Value)) (shown : List Report)
    (outcomes : List Outcome) (he : m.executors[me]? = some e) {w : World}
    (hstep : m.step me = m.put me e.current
      (w.nextItem below ⟨current, rest, shown.reverse, block, visited.length⟩))
    (hbelow : below.map Frame.shape = base.map Frame.shape)
    (hvisits : m.visits me base.length me = rest.head?.toList)
    (hreport : w.reportItems = m.world.reportItems) (hok : ∀ o ∈ outcomes, o.isOk)
    (hlength : visited.length = outcomes.length) (hitems : visited ++ rest = items) :
    (m.step me).Iterates block items base me (visited ++ m.visits me base.length me)
        (shown ++ m.shows me base.length me) outcomes ∧
      ∀ item, m.visits me base.length me = [item] →
        m.Launches me base.length w (callOf block visited.length)
          (.iterating ⟨item, items.drop (visited.length + 1),
            m.world.reportItems item :: shown.reverse, block, visited.length + 1⟩) := by
  rw [shows, hvisits, hstep]
  cases rest with
  | nil =>
      refine ⟨⟨_, executors_put he _ _, ?_⟩, nofun⟩
      rw [w.nextItem_nil below rfl]
      simp only [List.append_nil] at hitems
      subst hitems
      have hstack : (World.reportCalls visited.length below).map Frame.shape =
          base.map Frame.shape := (shape_reportEvent _ below).trans hbelow
      have hdone : IterationResult visited visited shown outcomes _ := .done hok hlength
      have hreturned : IterationStage block visited base visited shown outcomes _ _ :=
        .returned hdone hstack
      simpa [World.give] using hreturned
  | cons item rest =>
      rw [w.nextItem_cons below rfl, hreport]
      have hlaunched := BodyRun.launched_proceed (callOf block visited.length) w
        (.iterating ⟨item, rest, m.world.reportItems item :: shown.reverse, block,
          visited.length + 1⟩ :: below) rfl
      constructor
      · refine ⟨_, executors_put he _ _, ?_⟩
        have habove := hlaunched.above (by simp) hbelow
        refine .running rest item hok (by simp [hlength]) (by simp [← hitems]) ?_
        simpa using habove
      · intro item' hitem'
        obtain rfl : item = item' := by simpa using hitem'
        refine ⟨e, below, he, length_of_shape hbelow, ?_⟩
        have hdrop : items.drop (visited.length + 1) = rest := by simp [← hitems]
        rw [hstep, w.nextItem_cons below rfl, hreport, hdrop]

private theorem iterates_begun {wm : String} {what : Yielded} (he : m.executors[me]? = some e)
    (hcontrol : e.control = .perform (.call (.each wm what (some block)))) :
    let items := (m.world.livePairs m.held wm).map what.item
    (m.step me).Iterates block items (.showing .shown :: e.stack) me
        (m.visits me (e.stack.length + 1) me) (m.shows me (e.stack.length + 1) me) [] ∧
      ∀ item, items.head? = some item →
        m.Launches me (e.stack.length + 1) (m.world.listed m.held wm) (callOf block 0)
          (.iterating ⟨item, items.tail, [m.world.reportItems item], block, 1⟩) := by
  intro items
  have hstep : m.step me = m.put me e.current ((m.world.listed m.held wm).nextItem
      (.showing .shown :: e.stack) { items, block }) := by
    rw [← World.startEach_eq_nextItem]
    simp [step, he, hcontrol, perform, CallOp.start]
  have hvisits : m.visits me (Frame.showing .shown :: e.stack).length me = items.head?.toList := by
    rw [visits_self he, hcontrol]
    exact if_pos rfl
  have hreport : (m.world.listed m.held wm).reportItems = m.world.reportItems :=
    World.reportItems_eq (m.world.objects_listed m.held)
  obtain ⟨hbegun, hlaunches⟩ := iterates_nextItem [] [] [] he hstep rfl hvisits hreport
    (List.forall_mem_nil _) rfl (List.nil_append _)
  refine ⟨by simpa using hbegun, fun item hitem => ?_⟩
  simpa using hlaunches item (by rw [hvisits, hitem]; rfl)

theorem Iterates.step_self (h : m.Iterates block items base me visited shown outcomes)
    (hopen : m.returned? me base.length = none) :
    (m.step me).Iterates block items base me (visited ++ m.visits me base.length me)
        (shown ++ m.shows me base.length me) (outcomes ++ m.blockOutcomes me base.length me) ∧
      ∀ item, m.visits me base.length me = [item] →
        m.Launches me base.length m.world (callOf block visited.length)
          (.iterating ⟨item, items.drop (visited.length + 1),
            m.world.reportItems item :: shown.reverse, block, visited.length + 1⟩) := by
  obtain ⟨e, he, hstage⟩ := h
  generalize hcontrol : e.control = control at hstage
  generalize hstack : e.stack = stack at hstage
  cases hstage with
  | returned hresult hbelow =>
      rw [returned?_of_base he (hstack ▸ hbelow) hcontrol] at hopen
      cases hopen
  | running rest current hok hlength hitems habove =>
      rw [← hstack] at habove
      rcases handed_or_above he rfl habove with
        ⟨outcome, below, hhanded, hgive, hframes, hbelow⟩ | ⟨hbusy, e', he', habove'⟩
      · have hstep := step_give he hgive hframes
        have hsingle : e.stack =
            [.iterating ⟨current, rest, shown.reverse, block, visited.length⟩] ++ below := hframes
        have hvisits := visits_self he base.length
        rw [hgive, above_eq hsingle hbelow] at hvisits
        simp only [blockOutcomes, if_true, hhanded, Option.toList_some]
        cases outcome with
        | ok y =>
            refine iterates_nextItem _ _ _ he hstep hbelow hvisits rfl (fun o ho => ?_)
              (by simp [hlength]) hitems
            rcases List.mem_append.mp ho with ho | ho
            · exact hok o ho
            · rw [List.mem_singleton.mp ho]
              rfl
        | error failure =>
            have hnothing : m.visits me base.length me = [] := hvisits
            have hshape : (World.reportCalls visited.length below).map Frame.shape =
                base.map Frame.shape := (shape_reportEvent _ below).trans hbelow
            rw [shows, hnothing, hstep]
            refine ⟨⟨_, executors_put he _ _, ?_⟩, nofun⟩
            simp only [List.append_nil, List.map_nil]
            exact .returned (.failed hok hlength ⟨_, hitems⟩) hshape
      · rw [shows, visits_of_busy he habove hbusy]
        simp only [blockOutcomes, if_true, hbusy, Option.toList_none, List.append_nil,
          List.map_nil]
        exact ⟨⟨e', he', .running _ _ hok hlength hitems habove'⟩, nofun⟩

theorem Iterates.step_of_ne {i : Nat} (h : m.Iterates block items base me visited shown outcomes)
    (hi : i ≠ me) :
    (m.step i).Iterates block items base me (visited ++ m.visits me base.length i)
      (shown ++ m.shows me base.length i) (outcomes ++ m.blockOutcomes me base.length i) := by
  obtain ⟨e, he, hstage⟩ := h
  simp only [shows, visits, blockOutcomes, if_neg hi, List.map_nil, List.append_nil]
  exact ⟨e, executors_step_of_ne (Ne.symm hi) he, hstage⟩

theorem Iterates.follow {moves : List Move}
    (h : m.Iterates block items base me visited shown outcomes)
    (hrun : m.along (isOpen me base.length) moves) :
    (m.follow moves).Iterates block items base me
      (visited ++ m.log (visits me base.length) moves) (shown ++ m.log (shows me base.length) moves)
      (outcomes ++ m.log (blockOutcomes me base.length) moves) := by
  induction moves generalizing m visited shown outcomes with
  | nil => simpa [log] using h
  | cons move moves ih =>
      cases move with
      | step i =>
          simp only [along, Bool.and_eq_true] at hrun
          obtain ⟨hstep, hrun⟩ := hrun
          have hnext : (m.step i).Iterates block items base me
              (visited ++ m.visits me base.length i) (shown ++ m.shows me base.length i)
              (outcomes ++ m.blockOutcomes me base.length i) := by
            by_cases hi : i = me
            · subst hi
              exact (h.step_self (by simpa [isOpen] using hstep)).1
            · exact h.step_of_ne hi
          simpa [log] using ih hnext hrun
      | tick millis =>
          obtain ⟨e, he, hstage⟩ := h
          have hlater : (m.tick millis).Iterates block items base me visited shown outcomes :=
            ⟨e, he, hstage⟩
          exact ih hlater hrun

theorem Iterates.launches (h : m.Iterates block items base me visited shown outcomes)
    {item : List Value} (hitem : m.visits me base.length me = [item]) :
    m.Launches me base.length m.world (callOf block visited.length)
      (.iterating ⟨item, items.drop (visited.length + 1),
        m.world.reportItems item :: shown.reverse, block, visited.length + 1⟩) := by
  cases hopen : m.returned? me base.length with
  | none => exact (h.step_self hopen).2 item hitem
  | some outcome =>
      simp only [returned?, Option.bind_eq_some_iff] at hopen
      obtain ⟨e, he, hmatch⟩ := hopen
      rw [visits_self he] at hitem
      split at hmatch
      · next given hcontrol hover =>
        rw [hcontrol, hover] at hitem
        cases given <;> cases hitem
      · cases hmatch

/-- An iteration visits its items in order. It is over when its block has failed for the first time,
or when it has visited everything, and then shows what it has visited. -/
theorem Iterates.returned (h : m.Iterates block items base me visited shown outcomes) :
    visited <+: items ∧ (∀ o ∈ outcomes.dropLast, o.isOk) ∧
      (∀ failure, m.returned? me base.length = some (.error failure) ↔
        outcomes.getLast? = some (.error failure)) ∧
      (∀ y, m.returned? me base.length = some (.ok y) → visited = items ∧
        y = .report (.record [("yielded", Report.sorted shown)])) ∧
      visited.length =
        outcomes.length + if (m.returned? me base.length).isNone then 1 else 0 := by
  have hearlier : (∀ o ∈ outcomes, o.isOk) → ∀ o ∈ outcomes.dropLast, o.isOk :=
    fun hok o ho => hok o ((List.dropLast_sublist _).subset ho)
  obtain ⟨e, he, hstage⟩ := h
  generalize hcontrol : e.control = control at hstage
  generalize hstack : e.stack = stack at hstage
  cases hstage with
  | running rest current hok hlength hitems habove =>
      have hopen := returned?_of_above he (hstack ▸ habove)
      refine ⟨⟨_, hitems⟩, hearlier hok, ?_, ?_, by simpa [hopen] using hlength⟩
      · simp [hopen, getLast?_ne_error hok]
      · simp [hopen]
  | returned hresult hbelow =>
      rw [returned?_of_base he (hstack ▸ hbelow) hcontrol]
      cases hresult with
      | done hok hlength =>
          refine ⟨List.prefix_rfl, hearlier hok, ?_, ?_, by simpa using hlength⟩
          · simp [getLast?_ne_error hok]
          · rintro y hy
            cases hy
            exact ⟨rfl, rfl⟩
      | failed hok hlength hvisited =>
          exact ⟨hvisited, by simpa using hok, by simp, by simp, by simpa using hlength⟩

end Machine

/-- A weak map shows the live values that were written last. A lookup gives the value that was
stored last for its key and not removed since, if that is alive; the listed pairs are all of these
with live keys, each key once, and the size is their number. Deleting a key gives what a lookup
gives and leaves the other keys alone, and what is to be done for a missing key is done exactly if
the lookup gives nothing. An iteration in a session runs the steps of its block for the pairs that
were alive when it began, in order and each once, whatever the block and others do meanwhile. It
returns the failure of the first call that fails, and otherwise shows what it has visited when it
has visited everything. -/
theorem weak_map_shows_last_writes {alive : ObjectRef → Bool} {writes : List WeakMap.Write}
    {map : WeakMap} (h : WeakMap.History alive writes map) :
    (∀ k, k.isAlive alive →
      (∀ v, map.get? alive k = some v ↔
        WeakMap.lastStored k writes = some v ∧ v.isAlive alive) ∧
      (map.isKey alive k ↔
        ∃ v, WeakMap.lastStored k writes = some v ∧ v.isAlive alive) ∧
      (map.delete alive k).1 = map.get? alive k ∧
      (∀ k', k'.isAlive alive →
        (map.delete alive k).2.get? alive k' = if k' = k then none else map.get? alive k') ∧
      ∀ (w : World) (instead : Value),
        let reply := w.replyDelete k (map.delete alive k).1 (some instead)
        reply.result = .ok (w.report ((map.get? alive k).getD instead)) ∧
          reply.events = if (map.get? alive k).isNone then
            [.record [("fallback", w.report k)]] else []) ∧
    (∀ k v, (k, v) ∈ map.pairs alive ↔
      WeakMap.lastStored k writes = some v ∧ k.isAlive alive ∧ v.isAlive alive) ∧
    ((map.pairs alive).map Prod.fst).Nodup ∧
    map.size alive = (map.pairs alive).length ∧
    ∀ (m : Machine) me e wm what block, m.executors[me]? = some e →
      e.control = .perform (.call (.each wm what (some block))) →
      let height := e.stack.length + 1
      let items := (m.world.livePairs m.held wm).map what.item
      (∀ item, items.head? = some item →
        m.Launches me height (m.world.listed m.held wm) (callOf block 0)
          (.iterating ⟨item, items.tail, [m.world.reportItems item], block, 1⟩)) ∧
      ∀ later, (m.step me).along (Machine.isOpen me height) later →
        let last := (m.step me).follow later
        let visited := m.log (Machine.visits me height) (.step me :: later)
        let shown := m.log (Machine.shows me height) (.step me :: later)
        let outcomes := (m.step me).log (Machine.blockOutcomes me height) later
        visited <+: items ∧ (∀ o ∈ outcomes.dropLast, o.isOk) ∧
          (∀ failure, last.returned? me height = some (.error failure) ↔
            outcomes.getLast? = some (.error failure)) ∧
          (∀ y, last.returned? me height = some (.ok y) → visited = items ∧
            y = .report (.record [("yielded", Report.sorted shown)])) ∧
          visited.length =
            outcomes.length + (if (last.returned? me height).isNone then 1 else 0) ∧
          ∀ item, last.visits me height me = [item] →
            last.Launches me height last.world (callOf block visited.length)
              (.iterating ⟨item, items.drop (visited.length + 1),
                last.world.reportItems item :: shown.reverse, block, visited.length + 1⟩) := by
  have hfaithful := h.faithful
  have hsize : map.size alive = (map.pairs alive).length := by simp [WeakMap.size, WeakMap.pairs]
  refine ⟨fun k hk => ⟨fun v => hfaithful.get?_eq_some_iff hk, ?_, ?_, ?_, ?_⟩,
    fun k v => hfaithful.mem_pairs_iff, hfaithful.nodup_pairs, hsize, ?_⟩
  · rw [WeakMap.isKey, Option.isSome_iff_exists]
    simp only [hfaithful.get?_eq_some_iff hk]
  · rw [hfaithful.delete_eq hk]
  · exact fun k' hk' => hfaithful.get?_delete hk hk'
  · intro w instead
    rw [hfaithful.delete_eq hk]
    cases map.get? alive k <;> exact ⟨rfl, rfl⟩
  · intro m me e wm what block he hcontrol height items
    obtain ⟨hbegun, hfirst⟩ := Machine.iterates_begun he hcontrol
    refine ⟨hfirst, fun later hrun => ?_⟩
    have hlast := hbegun.follow hrun
    obtain ⟨hvisited, hok, hfailed, hdone, hlength⟩ := hlast.returned
    exact ⟨hvisited, hok, hfailed, hdone, hlength, fun item => hlast.launches⟩

private def disturbing : Block Step where
  steps := some [
    .mk false (.weak (.delete "w" (.immediate (.symbol "b")) none)),
    .mk false (.weak (.set "w" (.immediate (.integer 4)) (.immediate .nil)))]
  raises := some (.core .range "enough")
  raiseAt := 1

private def idle : Block Step := ⟨none, none, 0⟩

/-- Three pairs are stored and listed for a block that disturbs the map. The keys of the map are
listed when it has failed. -/
def disturbedListing : Script where
  options := {}
  watched := []
  steps := [
    .mk false (.object (.new "a" "Object" none false)),
    .mk false (.weak (.set "w" (.named "a") (.immediate (.integer 1)))),
    .mk false (.weak (.set "w" (.immediate (.symbol "b")) (.immediate (.integer 2)))),
    .mk false (.weak (.set "w" (.immediate (.integer 3)) (.named "a"))),
    .mk false (.call (.each "w" .pairs (some disturbing))),
    .mk false (.call (.each "w" .keys (some idle)))]

def disturbedMachine : Machine :=
  disturbedListing.start.follow (List.replicate 12 (.step 0))

def disturbedMoves : List Move :=
  List.replicate 14 (.step 0)

private def listed : ObjectRef := ⟨0, 0, "Object", none⟩

def disturbedMap : WeakMap :=
  ((({} : WeakMap).set (· == listed) (.object listed) (.integer 1)).set (· == listed) (.symbol "b")
    (.integer 2)).set (· == listed) (.integer 3) (.object listed)

private theorem history_disturbedMap :
    WeakMap.History (· == listed) [.stored (.integer 3) (.object listed),
      .stored (.symbol "b") (.integer 2), .stored (.object listed) (.integer 1)] disturbedMap := by
  have hseparate : WeakMap.Separate (· == listed) := by
    intro o p ho hp _
    rw [beq_iff_eq.mp ho, beq_iff_eq.mp hp]
  exact .set (.set (.set (.start hseparate) rfl rfl) rfl rfl) rfl rfl

private theorem returned?_disturbed :
    ((disturbedMachine.step 0).follow disturbedMoves).returned? 0 3 =
      some (.error (.error (.core .range "enough"))) :=
  rfl

private def relisting : Machine :=
  ((disturbedMachine.step 0).follow disturbedMoves).follow (List.replicate 3 (.step 0))

private theorem relisting_lists :
    relisting.executors[0]?.map (fun e => (e.control, e.stack.length)) =
      some (.perform (.call (.each "w" .keys (some idle))), 2) :=
  rfl

private theorem returned?_relisting :
    ((relisting.step 0).follow (List.replicate 3 (.step 0))).returned? 0 3 =
      some (.ok (.report (.record [("yielded", Report.sorted
        [.record [("obj", .text "a")], .int 3, .int 4])]))) :=
  rfl

theorem weak_map_shows_last_writes_disturbedListing :
    let m := disturbedMachine
    let visited := m.log (Machine.visits 0 3) (.step 0 :: disturbedMoves)
    let failed := (m.step 0).follow disturbedMoves
    disturbedMap.get? (· == listed) (.integer 3) = some (.object listed) ∧
      disturbedMap.size (· == listed) = 3 ∧
      failed.returned? 0 3 = some (.error (.error (.core .range "enough"))) ∧
      visited.length = 2 ∧
      visited <+: [[.object listed, .integer 1], [.symbol "b", .integer 2],
        [.integer 3, .object listed]] ∧
      ((m.step 0).log (Machine.blockOutcomes 0 3) disturbedMoves).getLast? =
        some (.error (.error (.core .range "enough"))) ∧
      (∃ w frame, ((m.step 0).follow (disturbedMoves.take 6)).Launches 0 3 w
        (callOf disturbing 1) frame) ∧
      failed.world.livePairs failed.held "w" =
        [(.object listed, .integer 1), (.integer 3, .object listed), (.integer 4, .nil)] ∧
      relisting.log (Machine.visits 0 3) (List.replicate 4 (.step 0)) =
        [[.object listed], [.integer 3], [.integer 4]] ∧
      Report.sorted (relisting.log (Machine.shows 0 3) (List.replicate 4 (.step 0))) =
        Report.sorted [.record [("obj", .text "a")], .int 3, .int 4] := by
  intro m visited failed
  obtain ⟨hkeys, -, -, hsize, heach⟩ := weak_map_shows_last_writes history_disturbedMap
  have hget := ((hkeys (.integer 3) rfl).1 (.object listed)).mpr ⟨by decide, rfl⟩
  obtain ⟨e, he, hcontrol, hheight⟩ : ∃ e, m.executors[0]? = some e ∧
      e.control = .perform (.call (.each "w" .pairs (some disturbing))) ∧ e.stack.length = 2 :=
    ⟨_, rfl, rfl, rfl⟩
  obtain ⟨-, hiteration⟩ := heach m 0 e "w" .pairs disturbing he hcontrol
  rw [hheight] at hiteration
  have hitems : (m.world.livePairs m.held "w").map Yielded.pairs.item =
      [[.object listed, .integer 1], [.symbol "b", .integer 2], [.integer 3, .object listed]] := by
    decide +kernel
  have hcalls : ((m.step 0).log (Machine.blockOutcomes 0 3) disturbedMoves).length = 2 := by
    decide +kernel
  obtain ⟨hvisited, -, hfailed, -, hlength, -⟩ := hiteration disturbedMoves (by decide +kernel)
  rw [hitems] at hvisited
  rw [returned?_disturbed, hcalls] at hlength
  -- The second call of the block begins when the first one has disturbed the map.
  obtain ⟨-, -, -, -, -, hlaunches⟩ := hiteration (disturbedMoves.take 6) (by decide +kernel)
  have hsecond : m.log (Machine.visits 0 3) (.step 0 :: disturbedMoves.take 6) =
      [[.object listed, .integer 1]] := by decide +kernel
  rw [hsecond] at hlaunches
  have hlaunched := hlaunches [.symbol "b", .integer 2] (by decide +kernel)
  obtain ⟨e', he', hlists⟩ := Option.map_eq_some_iff.mp relisting_lists
  obtain ⟨hcontrol', hheight'⟩ := Prod.mk.inj hlists
  obtain ⟨-, hlisting⟩ := heach relisting 0 e' "w" .keys idle he' hcontrol'
  simp only [hheight'] at hlisting
  obtain ⟨-, -, -, hdone, -⟩ := hlisting (List.replicate 3 (.step 0)) (by decide +kernel)
  obtain ⟨hall, hanswer⟩ := hdone _ returned?_relisting
  refine ⟨hget, hsize.trans (by decide), returned?_disturbed, hlength, hvisited,
    (hfailed _).mp returned?_disturbed, ⟨_, _, hlaunched⟩, by decide +kernel,
    hall.trans (by decide +kernel), ?_⟩
  simpa using hanswer.symm

end RubyRuntime.Session
