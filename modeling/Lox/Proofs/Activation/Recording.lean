import Lox.Proofs.Trace.Logging

namespace Lox.Activation

/-- What the body of one call does itself. What happens while an expression is evaluated, calls of
other functions and of the same one included, is no part of it. -/
inductive Entry where
  | began (statement : Stmt) (machine : Machine)
  | evaluated (e : Expr) (value : Value) (machine : Machine)

open Logging (silent note noting)

def runner : Runner (Logging Entry) := Logging.runner fun _ x => x

def evaluate (fuel : Nat) (e : Expr) (env : Env) : Logging Entry Value :=
  noting (fun _ value m => .evaluated e value m) (silent (Run.evaluate fuel e env))

def execute : Nat → Stmt → Env → Logging Entry Flow
  | 0, _, _ => silent (Run.stop .outOfFuel)
  | fuel + 1, statement, env => do
    note (.began statement)
    runner.dialect.executeStep (evaluate fuel) (execute fuel) fuel statement env

def body (fuel : Nat) (closure : Closure) (arguments : List Value) : Logging Entry Flow := do
  let env ← silent (Run.openScope closure.env)
  silent (Run.bindParams env closure.declaration.params arguments)
  Run.sequence (fun statement => execute fuel statement env) closure.declaration.body

/-- A call, with the way its body ended beside its result. -/
def call (fuel : Nat) (closure : Closure) (paren : Token) (arguments : List Value) :
    Logging Entry (Flow × Value) := do
  let flow ← body fuel closure arguments
  let result ← silent
    (if closure.isInitializer then Run.boundReceiver closure paren else pure flow.result)
  pure (flow, result)

open Logging (Forgets)

theorem follows_forgets : runner.Follows fun _ x y => Forgets x y := Forgets.follows fun _ _ _ h => h

theorem evaluate_forgets (fuel : Nat) (e : Expr) (env : Env) :
    Forgets (evaluate fuel e env) (Run.evaluate fuel e env) :=
  (Forgets.silent _).noting

theorem execute_forgets (fuel : Nat) (s : Stmt) (env : Env) :
    Forgets (execute fuel s env) (Run.execute fuel s env) := by
  induction fuel generalizing s env with
  | zero => exact .silent _
  | succ fuel ih =>
    exact (follows_forgets.executeStep (evaluate_forgets fuel) ih fuel s env).note

theorem call_forgets (fuel : Nat) (closure : Closure) (paren : Token) (arguments : List Value) :
    Forgets (call fuel closure paren arguments >>= fun result => pure result.2)
      (Run.callClosure (Run.execute fuel) closure paren arguments) := by
  have same : (call fuel closure paren arguments >>= fun result => pure result.2) =
      runner.callClosure (execute fuel) closure paren arguments := by
    simp [call, body, runner, Logging.runner, Runner.callClosure]
  rw [same]
  exact follows_forgets.callClosure (execute_forgets fuel) closure paren arguments

end Lox.Activation
