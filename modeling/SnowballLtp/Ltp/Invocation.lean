import SnowballLtp.Ltp.TestLooping

/-!
# How a test program is called

What a test program reads from its surroundings before it tests anything: the command line, the
variables of the environment, and the clock.

## Main definitions

* `Invocation`, `Invocation.parsed`.
-/

namespace SnowballLtp

namespace ParseOpts

/-- How a program is called, and what it reads from its surroundings. -/
structure Invocation (F : Type) where
  floats : Floats F
  uclinux : Bool
  allocated : Bool
  getenv : String → Option (List Char)
  getopt : List Char → List Getopt
  clock : ℕ → Timeval

namespace Invocation

variable {F : Type} (call : Invocation F)

/-- What `parse_opts` leaves in the variables, with the options of the program. -/
def parsed (user : Option (List UserOption)) : Except Stop (State F) :=
  match (parseOpts call.floats call.uclinux user call.allocated call.getenv call.getopt).run
    ⟨.initial call.floats, 0, fun _ => 0, fun _ => none⟩ with
  | .ok _ state => .ok state
  | .error stop _ => .error stop

end Invocation

/-- A call that lets `getopt` find the given options, with times in microseconds and a clock that
stands. -/
def plainInvocation (options : List Getopt) : Invocation ℤ where
  floats := microseconds
  uclinux := false
  allocated := true
  getenv _ := none
  getopt _ := options
  clock _ := ⟨0, 0⟩

end ParseOpts

end SnowballLtp
