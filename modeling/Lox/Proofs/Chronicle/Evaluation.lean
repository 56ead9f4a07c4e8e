import Lox.Proofs.Trace.Logging

namespace Lox.Chronicle

/-- What a run comes by: the values of expressions, the methods that are given a receiver, the calls
as they are entered and as they are completed, and the objects that classes make. -/
inductive Entry where
  | computed (value : Value)
  | bound (method : Closure) (receiver : Value) (closure : Closure)
  | entered (closure : Closure) (env : Env)
  /-- The body ended like this, and the call gave this result. -/
  | completed (closure : Closure) (flow : Flow) (result : Value)
  /-- The class was called after so many entries, on this store, and the call gave this result. -/
  | constructed (c : Class) (since : Nat) (before : Store) (result : Value)

/-- The entry behind an activity that ends well. -/
def entry? {α : Type} : Activity α → Option (Logged Entry → α → Machine → Entry)
  | .expression _ => some fun _ value _ => .computed value
  | .binding method receiver => some fun _ closure _ => .bound method receiver closure
  | .entering closure => some fun _ env _ => .entered closure env
  | .leaving closure flow => some fun _ result _ => .completed closure flow result
  | .constructing c => some fun s result _ => .constructed c s.log.length s.machine.store result
  | _ => none

def around {α : Type} (activity : Activity α) (x : Logging Entry α) : Logging Entry α :=
  match entry? activity with
  | some entry => Logging.noting entry x
  | none => x

def runner : Runner (Logging Entry) := Logging.runner around

abbrev evaluate : Nat → Expr → Env → Logging Entry Value := runner.dialect.evaluate

abbrev execute : Nat → Stmt → Env → Logging Entry Flow := runner.dialect.execute

abbrev program : Nat → List Stmt → Logging Entry Unit := runner.dialect.program globals

abbrev interpret : Nat → List Stmt → Locals → Logging Entry Unit := runner.dialect.interpret globals

theorem follows_forgets : runner.Follows fun _ x y => Logging.Forgets x y :=
  Logging.Forgets.follows fun activity _ _ h => by
    rw [around]
    cases entry? activity with
    | some entry => exact h.noting
    | none => exact h

theorem evaluate_forgets (fuel : Nat) (e : Expr) (env : Env) :
    Logging.Forgets (evaluate fuel e env) (Run.evaluate fuel e env) :=
  follows_forgets.evaluate fuel e env

theorem interpret_forgets (fuel : Nat) (statements : List Stmt) (locals : Locals) :
    Logging.Forgets (interpret fuel statements locals) (Run.interpret fuel statements locals) :=
  .interpret follows_forgets fuel statements locals

end Lox.Chronicle
