import Lox.Proofs.Trace.Logging

namespace Lox.Traced

inductive Event where
  | printed (text : String) (machine : Machine)
  /-- `normally` is false for a statement that stopped the run. -/
  | executed (statement : Stmt) (env : Env) (normally : Bool) (before after : Store)
  | called (closure : Closure) (before after : Store)

abbrev Observed := Logged Event

abbrev Tracing := Logging Event

open Logging (note recording)

/-- Every line that is printed is on record, and every statement and every call, however it ended. -/
def around {α : Type} : Activity α → Tracing α → Tracing α
  | .printing text, x => do
    note (.printed text)
    x
  | .statement statement env, x => recording (.executed statement env) x
  | .calling closure, x => recording (fun _ => .called closure) x
  | _, x => x

def runner : Runner Tracing := Logging.runner around

abbrev evaluate : Nat → Expr → Env → Tracing Value := runner.dialect.evaluate

abbrev execute : Nat → Stmt → Env → Tracing Flow := runner.dialect.execute

abbrev program : Nat → List Stmt → Tracing Unit := runner.dialect.program globals

abbrev interpret : Nat → List Stmt → Locals → Tracing Unit := runner.dialect.interpret globals

theorem program_cons (fuel : Nat) (statement : Stmt) (rest : List Stmt) :
    program fuel (statement :: rest) = execute fuel statement globals >>= fun _ => program fuel rest :=
  rfl

theorem follows_forgets : runner.Follows fun _ x y => Logging.Forgets x y :=
  Logging.Forgets.follows fun activity _ _ h => by
    cases activity with
    | printing text => exact h.note
    | statement statement env => exact h.recording
    | calling closure =>
      change (recording (fun _ => Event.called closure) _).Forgets _
      exact h.recording
    | _ => exact h

theorem interpret_forgets (fuel : Nat) (statements : List Stmt) (locals : Locals) :
    Logging.Forgets (interpret fuel statements locals) (Run.interpret fuel statements locals) :=
  .interpret follows_forgets fuel statements locals

end Lox.Traced
