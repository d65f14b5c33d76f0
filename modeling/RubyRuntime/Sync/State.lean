import RubyRuntime.Sync.Condition
import RubyRuntime.Sync.Lock
import RubyRuntime.Thread.Signal

/-!
# Threads, locks and conditions together

The state that synchronisation works on: all thread records, locks and conditions, indexed by their
ids, with the registry of live threads and the safepoint counters. An id that was not handed out yet
stands for a fresh entry, so that reading and changing entries need no conditions.
-/
namespace RubyRuntime

/-- Changes the entry of an id. Entries that are missing up to it come into being as `fresh`. -/
def changeEntry {β : Type} (fresh : β) (f : β → β) : Nat → List β → List β
  | 0, [] => [f fresh]
  | 0, entry :: rest => f entry :: rest
  | i + 1, [] => fresh :: changeEntry fresh f i []
  | i + 1, entry :: rest => entry :: changeEntry fresh f i rest

structure Sync (α : Type) where
  threads : List (ThreadRecord α) := []
  registered : List ThreadId := []
  locks : List Lock := []
  conditions : List Condition := []
  submitted : Nat := 0
  safepoints : Nat := 0
  nextTicket : Ticket := 0

namespace Sync

variable {α : Type}

def thread (s : Sync α) (t : ThreadId) : ThreadRecord α :=
  s.threads[t]?.getD {}

def updateThread (t : ThreadId) (f : ThreadRecord α → ThreadRecord α) (s : Sync α) : Sync α :=
  { s with threads := changeEntry {} f t s.threads }

def lock (s : Sync α) (l : LockId) : Lock :=
  s.locks[l]?.getD {}

def updateLock (l : LockId) (f : Lock → Lock) (s : Sync α) : Sync α :=
  { s with locks := changeEntry {} f l s.locks }

def condition (s : Sync α) (c : ConditionId) : Condition :=
  s.conditions[c]?.getD {}

def updateCondition (c : ConditionId) (f : Condition → Condition) (s : Sync α) : Sync α :=
  { s with conditions := changeEntry {} f c s.conditions }

def drawTicket (s : Sync α) : Ticket × Sync α :=
  (s.nextTicket, { s with nextTicket := s.nextTicket + 1 })

def createThread (name : Option String) (s : Sync α) : ThreadId × Sync α :=
  let t := s.threads.length
  (t, { s with threads := s.threads ++ [{ name }], registered := s.registered ++ [t] })

def createLock (s : Sync α) : LockId × Sync α :=
  (s.locks.length, { s with locks := s.locks ++ [{}] })

def createCondition (s : Sync α) : ConditionId × Sync α :=
  (s.conditions.length, { s with conditions := s.conditions ++ [{}] })

def submit (t : ThreadId) (action : α) (s : Sync α) : Sync α :=
  { s with submitted := s.submitted + 1 }.updateThread t (Signal.submitting action).deliver

/-- Queues an action on a thread unless it is dead. -/
def submitIfAlive (t : ThreadId) (action : α) (s : Sync α) : Sync α :=
  if (s.thread t).isAlive then s.submit t action else s

def submitAll (ts : List ThreadId) (action : α) (s : Sync α) : Sync α :=
  ts.foldl (fun s t => s.submitIfAlive t action) s

def releaseOwned (t : ThreadId) (s : Sync α) : Sync α :=
  let owned := (s.thread t).ownedLocks
  let s := s.updateThread t fun thread => { thread with ownedLocks := [] }
  owned.foldl (fun s l => s.updateLock l (·.releaseFully t)) s

/-- The end of a thread: it is dead, its recorded locks are free, and it is registered no longer. -/
def finishThread (t : ThreadId) (s : Sync α) : Sync α :=
  let s := s.updateThread t fun thread => { thread with status := .dead }
  let s := s.releaseOwned t
  { s with registered := s.registered.filter (· ≠ t) }

end Sync

end RubyRuntime
