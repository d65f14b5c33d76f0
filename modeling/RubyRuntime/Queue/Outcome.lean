/-!
# Outcomes of queue operations
-/
namespace RubyRuntime

inductive Taken (α : Type) where
  | item (a : α)
  | closed
  deriving DecidableEq, Repr

inductive Offer (α : Type) where
  | success
  | full (a : α)
  | closed (a : α)
  deriving DecidableEq, Repr

def Taken.item? {α : Type} : Taken α → Option α
  | item a => some a
  | closed => none

/-- What one critical section of a blocking call comes to: a result, or the need to wait and try
again. -/
inductive Attempt (ρ : Type) where
  | done (result : ρ)
  | park
  deriving DecidableEq, Repr

end RubyRuntime
