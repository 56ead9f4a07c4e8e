import Lox.Diagnostic
import Lox.Evaluation
import Lox.Parser.Statement

namespace Lox

/-- One text after the other runs on the same machine. A text with a static error changes nothing
but the supply of ids. -/
structure Session where
  nextId : Nat
  machine : Machine

/-- What becomes of a text; `unfinished` is only for lack of fuel. -/
inductive Outcome (α : Type) where
  | finished (result : α)
  | rejected (errors : List Diagnostic)
  | halted (error : Diagnostic)
  | unfinished

namespace Outcome

variable {α : Type}

def exitCode : Outcome α → Nat
  | finished _ => 0
  | rejected _ => 65
  | halted _ => 70
  | unfinished => 70

def errors : Outcome α → List Diagnostic
  | rejected errors => errors
  | halted error => [error]
  | _ => []

def ofStop : Stop → Outcome α
  | .error error => .halted (.runtime error)
  | .sinkClosed => .halted .sinkClosed
  | .outOfFuel => .unfinished

def ofRun (run : Run α) (machine : Machine) : Outcome α × Machine :=
  match run machine with
  | .ok result machine => (.finished result, machine)
  | .error reason machine => (.ofStop reason, machine)

end Outcome

/-- The statements of a text with the distances in them, or its static errors, and the next id.
Lexical and syntax errors are reported together. -/
def checkProgram (source : String) (firstId : Nat) :
    Except (List Diagnostic) (List Stmt × Locals) × Nat :=
  let items := scan source
  let parsed := parse (tokensOf items) firstId
  let errors := (lexErrorsOf items).map .lex ++ parsed.errors.map .parse
  if !errors.isEmpty then (.error errors, parsed.nextId)
  else
    let resolution := resolve parsed.statements
    if !resolution.errors.isEmpty then
      (.error (resolution.errors.map .resolve), parsed.nextId)
    else (.ok (parsed.statements, resolution.locals), parsed.nextId)

def checkExpression (source : String) (firstId : Nat) : Except (List Diagnostic) Expr × Nat :=
  let items := scan source
  match lexErrorsOf items with
  | [] =>
    let parsed := parseExpression (tokensOf items) firstId
    match parsed.result with
    | .ok e => (.ok e, parsed.nextId)
    | .error errors => (.error (errors.map .parse), parsed.nextId)
  | errors => (.error (errors.map .lex), firstId)

namespace Session

def initial (clock : Clock) (limit : Option Nat) : Session := ⟨0, .initial clock limit⟩

def withSink (session : Session) (limit : Option Nat) : Session :=
  { session with machine := { session.machine with sink := .fresh limit } }

variable {α : Type}

def perform (session : Session) (nextId : Nat) (action : Run α) : Outcome α × Session :=
  let (outcome, machine) := Outcome.ofRun action session.machine
  (outcome, ⟨nextId, machine⟩)

def run (fuel : Nat) (source : String) (session : Session) : Outcome Unit × Session :=
  match checkProgram source session.nextId with
  | (.ok (statements, locals), nextId) =>
    session.perform nextId (Run.interpret fuel statements locals)
  | (.error errors, nextId) => (.rejected errors, { session with nextId := nextId })

def evaluate (fuel : Nat) (source : String) (session : Session) : Outcome Value × Session :=
  match checkExpression source session.nextId with
  | (.ok e, nextId) => session.perform nextId (Run.evaluate fuel e globals)
  | (.error errors, nextId) => (.rejected errors, { session with nextId := nextId })

theorem evaluate_eq (fuel : Nat) (source : String) (session : Session) :
    session.evaluate fuel source =
      match lexErrorsOf (scan source) with
      | [] =>
        match (parseExpression (tokensOf (scan source)) session.nextId).result with
        | .ok e =>
          session.perform (parseExpression (tokensOf (scan source)) session.nextId).nextId
            (Run.evaluate fuel e globals)
        | .error errors => (.rejected (errors.map .parse), { session with
            nextId := (parseExpression (tokensOf (scan source)) session.nextId).nextId })
      | errors => (.rejected (errors.map .lex), session) := by
  simp only [evaluate, checkExpression]
  cases lexErrorsOf (scan source) with
  | cons error errors => rfl
  | nil =>
    dsimp only
    cases (parseExpression (tokensOf (scan source)) session.nextId).result <;> rfl

end Session

end Lox
