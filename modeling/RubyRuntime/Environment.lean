import RubyRuntime.FileTree
import RubyRuntime.Text.Quoted

/-!
# Variables of a process

A process can only have variables whose name is not empty and holds no equals sign, and in which
neither the name nor the value holds a NUL. Setting any other one panics.
-/
namespace RubyRuntime

structure Variable where
  name : String
  value : String
  deriving DecidableEq, Repr

namespace Variable

/-- Why the variable cannot be set; none if it can. A NUL is noticed first. -/
def fault? (v : Variable) : Option String :=
  if v.name.toList.contains '\x00' || v.value.toList.contains '\x00' then
    some ReadFailure.unnameable.message
  else if v.name.isEmpty || v.name.toList.contains '=' then some "Invalid argument (os error 22)"
  else none

def refusal? (v : Variable) : Option String :=
  v.fault?.map fun fault =>
    "failed to set environment variable \x60" ++ Text.quote v.name ++ "\x60 to \x60" ++
      Text.quote v.value ++ "\x60: " ++ fault

end Variable

end RubyRuntime
