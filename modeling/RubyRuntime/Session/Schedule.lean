import RubyRuntime.Session.Machine

/-!
# Running a session

One schedule out of all possible ones: executors take turns in the order in which they could go on,
each until it has to wait, and the clock moves on to the next deadline when all of them wait. A
session is run until its own executor is finished. One in which nothing can happen, or not within
its patience, hangs.
-/
namespace RubyRuntime.Session

structure Script where
  options : Options
  watched : List Watched
  steps : List Step

namespace Machine

def isReady (m : Machine) (e : Executor) : Bool :=
  match e.control with
  | .perform (.mutex op) => !op.mustWait m.world
  | .perform _ | .attempt _ | .releasing _ _ | .interrupted _ | .give _ | .answer _ _ => true
  | .parked wait ticket wakeAt => wait.isReady m.world ticket wakeAt
  | .condition wait phase wakeAt => wait.isReady m.world.clock wakeAt phase m.world.sync
  | .awaiting what => what.holds m.world
  | .joining target => (m.result? target).isSome
  | .finished _ => false

def wakeAt? (e : Executor) : Option Nat :=
  match e.control with
  | .parked _ _ wakeAt | .condition _ (.parked _ _) wakeAt => wakeAt
  | _ => none

def ticket? (e : Executor) : Option Ticket :=
  match e.control with
  | .parked _ ticket _ | .condition _ (.parked _ ticket) _ => some ticket
  | _ => none

/-- The order of two executors that can go on from the same moment: parked ones come first, in the
order in which they parked. -/
def precedes (m : Machine) (a b : Nat) : Bool :=
  match m.executors[a]?.bind ticket?, m.executors[b]?.bind ticket? with
  | some s, some t => s ≤ t
  | some _, none => true
  | none, some _ => false
  | none, none => a ≤ b

/-- The executors that can go on: those of `turns` that still can, and then the others. -/
def nextTurns (m : Machine) (turns : List Nat) : List Nat :=
  let ready := (List.range m.executors.length).filter fun i => m.executors[i]?.any m.isReady
  turns.filter ready.contains ++
    (ready.filter fun i => !turns.contains i).mergeSort m.precedes

def patience : Nat := 10000

/-- Moves the clock on to the next deadline, unless that is too far away. -/
def wait? (m : Machine) : Option Machine := do
  let time ← (m.executors.filterMap wakeAt?).min?
  guard (time ≤ patience)
  pure { m with world := { m.world with clock := max m.world.clock time } }

/-- Follows the schedule until the session is finished, for at most `fuel` steps. The first of
`turns` goes on as long as it can. -/
def run (m : Machine) (turns : List Nat) : (fuel : Nat) → Machine
  | 0 => m
  | fuel + 1 =>
    if (m.result? 0).isSome then m
    else
      match m.nextTurns turns with
      | me :: others => (m.step me).run (me :: others) fuel
      | [] =>
        match m.wait? with
        | some m => m.run [] fuel
        | none => m

end Machine

namespace Script

def start (script : Script) : Machine :=
  let w := script.watched.foldl (fun w watched => w.mention watched)
    { options := script.options }
  let task := nextStep w script.steps []
  { world := task.world
    executors := [{ control := task.control, stack := task.stack }]
    watched := script.watched }

def maxSteps : Nat := 10000000

def run (script : Script) : Except OptionsError (Option Report) := do
  let options ← script.options.validate
  pure (({ script with options }.start.run [0] maxSteps).result? 0)

end Script

end RubyRuntime.Session
