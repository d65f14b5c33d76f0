import RubyRuntime.Backtrace.Formatter
import RubyRuntime.Session.Report
import RubyRuntime.Sync.State
import RubyRuntime.Value

/-!
# The language of sessions

A session is a list of steps on a runtime. Threads, mutexes and the other entities are named; those
that a step mentions for the first time come into being. Steps that do their work at once are
grouped by what they work on; `Op.call` holds those that may wait or run callbacks. A callback is a
body: some steps, and then a value, an error or a panic.
-/
namespace RubyRuntime.Session

inductive Immediate where
  | nil
  | bool (b : Bool)
  | integer (n : Int64)
  | float (bits : UInt64)
  | symbol (name : String)

def Immediate.value : Immediate → Value
  | nil => .nil
  | bool b => .bool b
  | integer n => .integer n
  | float bits => .float bits
  | symbol name => .symbol name

/-- A value as a step writes it. `fresh` makes a new object. -/
inductive ValueSpec where
  | immediate (v : Immediate)
  | named (name : String)
  | fresh (className : String) (payload : Option String)

/-- How long a call may take: as long as it needs, some milliseconds, or longer than any clock can
tell, which is no deadline either. -/
inductive Timeout where
  | forever
  | millis (n : Nat)
  | unbounded

def Timeout.deadline (now : Nat) : Timeout → Option Nat
  | millis n => some (now + n)
  | forever | unbounded => none

inductive Cue where
  | interrupted
  | check
  | ok

def Cue.display : Cue → String
  | interrupted => "int"
  | check => "check"
  | ok => "ok"

structure PathRule where
  line : Option Nat
  path : Option String
  result : Except LineFailure String

structure FormatSpec where
  flags : Option FormattingFlags
  rules : Option (List PathRule)

def resolverOf (rules : List PathRule) : PathResolver := fun location =>
  match rules.find? fun rule =>
      rule.line.all (· == location.line) && rule.path.all (· == location.path) with
  | some rule => rule.result
  | none => .ok location.path

def FormatSpec.formatter (base : Formatter) (spec : FormatSpec) : Formatter :=
  match spec.flags, spec.rules with
  | none, none => base
  | flags, rules =>
    { flags := flags.getD {}, resolve := (rules.map resolverOf).getD PathResolver.own }

inductive Build where
  | limit (limit : Option Nat)
  | exception (e : Exception)
  | native (frames : List NativeFrame)
  | eager

def Build.apply (backtrace : Backtrace) : Build → Backtrace
  | limit bound => backtrace.withLimit bound
  | exception e => backtrace.withException (some e)
  | native frames => backtrace.withNative frames
  | eager => backtrace.eager

inductive Question where
  | materialized
  | total
  | omitted
  | exception
  | native
  | activations
  | allLocations
  | locations (length : Option Int)
  | format (spec : FormatSpec) (exception : Option Exception) (ownException : Bool)
  | line (n : Nat) (spec : FormatSpec) (exception : Option Exception)

inductive Awaited where
  | conditionWaiters (name : String) (n : Nat)
  | queueWaiting (name : String) (n : Nat)
  | boundedWaiting (name : String) (n : Nat)
  | lockWaiting (name : String) (n : Nat)
  | queueSize (name : String) (n : Nat)
  | boundedSize (name : String) (n : Nat)
  | safepoints (n : Nat)
  | unlocked (name : String)
  | locked (name : String)
  | sleeping (name : String)
  | dead (name : String)

inductive Watched where
  | thread (name : String)
  | mutex (name : String)
  | condition (name : String)
  | queue (name : String)
  | bounded (name : String)
  | weakMap (name : String)
  | weakKeyMap (name : String)
  | space

inductive ThreadOp (β : Type) where
  | create (t : String) (name : Option String)
  | attach (t : String)
  | detach
  | current
  | info (t : String)
  | list
  | debug (t : String)
  | idsIncrease
  | interrupt (t : String)
  | clearWakeUp (t : String)
  | setWakeUp (t : String)
  | takeInterrupt (t : String)
  | takeWakeUp (t : String)
  | checkInterrupted (t : String)
  | wakeUp (t : String)
  | raiseIn (t : String) (e : Exception)
  | kill (t : String)
  | submit (t label : String) (body : β)
  | pauseAll (label : String) (body : β)
  | pauseSome (ts : List String) (label : String) (body : β)
  | stats
  | resetStats

inductive MutexOp where
  | unlock (t m : String)
  | checkOwned (t m : String)
  | unlockInternal (t m : String)
  | tryLock (t m : String)
  | info (t m : String)
  | debug (m : String)
  | dump (what : Undumpable)
  | rawTry (t m : String)
  | rawUnlock (t m : String)
  | rawRelease (t m : String)
  | rawSetHold (t m : String) (holds : UInt32)
  | signal (cv : String)
  | broadcast (cv : String)
  | conditionInfo (cv : String)

inductive QueueOp where
  | add (q : String) (v : ValueSpec)
  | addAll (q : String) (vs : List ValueSpec)
  | offer (q : String) (v : ValueSpec)
  | poll (q : String)
  | push (q : String) (v : ValueSpec)
  | popNow (t q : String)
  | clear (q : String)
  | close (q : String)
  | info (q : String)
  | boundedNew (s : String) (capacity : Int)
  | boundedCapacity (s : String) (capacity : Int)
  | boundedOffer (s : String) (v : ValueSpec)
  | boundedPoll (s : String)
  | boundedPushNow (t s : String) (v : ValueSpec)
  | boundedPopNow (t s : String)
  | boundedClear (s : String)
  | boundedClose (s : String)
  | boundedInfo (s : String)

inductive ObjectOp where
  | new (name className : String) (payload : Option String) (shared : Bool)
  | alias (name source : String)
  | drop (name : String)
  | share (name : String)
  | info (name : String)
  | compare (a b : ValueSpec)
  | inspect (v : ValueSpec)

inductive SpaceOp (β : Type) where
  | create (name : String) (counter : Option Nat)
  | nextId (space : Option String)
  | objectId (space : Option String) (v : ValueSpec)
  | heapId (space : Option String) (obj : String)
  | readId (space : Option String) (obj : String)
  | idToValue (space : Option String) (id : Int)
  | traceStart (space : Option String)
  | traceStop (space : Option String)
  | traceClear (space : Option String)
  | traceInfo (space : Option String)
  | trace (space : Option String) (obj : String) (className method file : Option String)
      (line : Nat)
  | allocationInfo (space : Option String) (obj : String)
  | defineFinalizer (space : Option String) (v : ValueSpec) (label : String) (body : β)
  | undefineFinalizer (space : Option String) (v : ValueSpec)
  | finalizerCount (space : Option String)

inductive WeakOp where
  | set (wm : String) (k v : ValueSpec)
  | get (wm : String) (k : ValueSpec)
  | isKey (wm : String) (k : ValueSpec)
  | delete (wm : String) (k : ValueSpec) (otherwise : Option ValueSpec)
  | info (wm : String)
  | keySet (wk : String) (k v : ValueSpec)
  | keyGet (wk : String) (k : ValueSpec)
  | keyGetKey (wk : String) (k : ValueSpec)
  | keyIsKey (wk : String) (k : ValueSpec)
  | keyDelete (wk : String) (k : ValueSpec) (otherwise : Option ValueSpec)
  | keyClear (wk : String)
  | keyInfo (wk : String)

inductive StackOp where
  | setLocation (t : String) (location : SourceLocation)
  | stack (t : String)
  | capture (t bt : String) (omitted : Nat) (pureRescue : Option Bool) (build : List Build)
  | ask (bt : String) (questions : List Question)
  | formatCurrent (t : String) (spec : FormatSpec) (exception : Option Exception)
  | printable (t : String)
  | runtimeInfo

inductive FinalizerRun where
  | pending (space : Option String)
  | all (space : Option String)
  | collect (space : Option String)

/-- A block: the steps of each call, if it has any list of them, and the error that the call of the
given number ends with. -/
structure Block (σ : Type) where
  steps : Option (List σ)
  raises : Option Error
  raiseAt : Nat

inductive Yielded where
  | pairs
  | keys
  | values

inductive CallOp (β : Type) (σ : Type) where
  | poll (t : String)
  | sleep (t : String) (timeout : Timeout)
  | runUntil (t : String) (script : List Cue) (plain : Bool)
  | spawn (t : String) (name : Option String) (body : β)
  | join (t : String)
  | await (what : Awaited)
  | lock (t m : String)
  | lockInternal (t m : String)
  | lockEven (t m : String) (holds : UInt32)
  | mutexSleep (t m : String) (timeout : Timeout)
  | synchronize (t m : String) (body : β)
  | guarded (t m : String) (body : β) (unlock : Bool)
  | rawLock (t m : String)
  | wait (t m cv : String) (timeout : Timeout)
  | take (t q : String)
  | pollTimeout (t q : String) (timeout : Timeout)
  | pop (t q : String)
  | popTimeout (t q : String) (timeout : Timeout)
  | boundedPut (t s : String) (v : ValueSpec)
  | boundedTake (t s : String)
  | boundedPollTimeout (t s : String) (timeout : Timeout)
  | boundedPush (t s : String) (v : ValueSpec)
  | boundedPop (t s : String)
  | boundedPopTimeout (t s : String) (timeout : Timeout)
  | finalize (run : FinalizerRun)
  | each (wm : String) (what : Yielded) (block : Option (Block σ))
  | frame (t : String) (frames : List StackFrame) (steps : List σ) (forget : Bool)

mutual

inductive Op where
  | thread (op : ThreadOp Body)
  | mutex (op : MutexOp)
  | queue (op : QueueOp)
  | object (op : ObjectOp)
  | space (op : SpaceOp Body)
  | weak (op : WeakOp)
  | stack (op : StackOp)
  | call (op : CallOp Body Step)

/-- A step; the error of a strict one ends the body that it stands in. -/
inductive Step where
  | mk (strict : Bool) (op : Op)

/-- A callback: steps, then a panic, an error, or a value. -/
inductive Body where
  | mk (steps : List Step) (raises : Option Error) (panics : Option String) (value : Report)

end

namespace Step

def isStrict : Step → Bool
  | mk strict _ => strict

def op : Step → Op
  | mk _ op => op

end Step

structure Ending where
  raises : Option Error
  panics : Option String
  value : Report

namespace Body

def steps : Body → List Step
  | mk steps _ _ _ => steps

def ending : Body → Ending
  | mk _ raises panics value => ⟨raises, panics, value⟩

end Body

inductive Action where
  | callback (label : String) (body : Body)
  | raises (e : Exception)
  | kills

structure Finalizer where
  label : String
  body : Body

end RubyRuntime.Session
