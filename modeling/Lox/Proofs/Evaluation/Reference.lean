import Lox.Session
import Lox.Proofs.Evaluation.Store

namespace Lox.Reference

/-- Where a statement stands: the visible cells, and whether its declarations are local. -/
structure Place where
  cells : Env
  isLocal : Bool

namespace Place

def top : Place := ⟨[], false⟩

def inside (cells : Env) : Place := ⟨cells, true⟩

def target (place : Place) : Env := if place.isLocal then place.cells else globals

end Place

inductive Progress where
  | next (place : Place)
  | returning (value : Value)

def Progress.result : Progress → Value
  | next _ => .nil
  | returning value => value

/-- A new cell in front of those that are visible. -/
def newCell (cells : Env) (name : String) (value : Value) : Run Env := do
  let extended ← Run.openScope cells
  Run.define extended name value
  pure extended

/-- A later declaration does not change what is visible at an earlier place. -/
theorem newCell_keeps (cells : Env) (name : String) (value : Value) (m : Machine) :
    ∃ scope store, newCell cells name value m = .ok (scope :: cells) { m with store := store } ∧
      ∀ older : Env, (∀ cell ∈ older, cell < m.store.scopes.size) → ∀ other : String,
        store.get? older other = m.store.get? older other := by
  refine ⟨m.store.scopes.size, m.store.newScope.2.define m.store.scopes.size name value, rfl, ?_⟩
  intro older earlier other
  apply Store.get?_congr
  intro cell member
  have apart : cell ≠ m.store.scopes.size := Nat.ne_of_lt (earlier cell member)
  rw [Store.binding?_define_of_ne _ value fun same => apart same.1, Store.binding?_newScope]

/-- A local declaration has its cell before it has its value; a global one needs none. -/
def declare (place : Place) (name : String) : Run Place := do
  if place.isLocal then
    let cells ← newCell place.cells name .nil
    pure (.inside cells)
  else pure place

def readVariable (name : Token) (cells : Env) : Run Value := fun m =>
  match m.store.get? (cells ++ globals) name.lexeme with
  | some value => .ok value m
  | none => Run.fail (.undefinedGlobal name.lexeme) name m

def writeVariable (name : Token) (cells : Env) (value : Value) : Run Unit := fun m =>
  match m.store.assign? (cells ++ globals) name.lexeme value with
  | some store => .ok () { m with store := store }
  | none => Run.fail (.undefinedGlobal name.lexeme) name m

def superMethod (keyword method : Token) (cells : Env) : Run Value := do
  match ← Run.read fun m => m.store.get? cells "super" with
  | some (.classValue superclass) =>
    match ← Run.read fun m => m.store.get? cells "this" with
    | some (.object object c) =>
      match superclass.findMethod method.lexeme with
      | some found => Run.newFunction (← Run.bindReceiver found (.object object c))
      | none => Run.fail (.undefinedProperty method.lexeme) method
    | _ => Run.fail .superWithoutReceiver keyword
  | _ => Run.fail (.superUnbound keyword.lexeme) keyword

def bindParams (cells : Env) : List Token → List Value → Run Env
  | param :: params, argument :: arguments => do
    let extended ← newCell cells param.lexeme argument
    bindParams extended params arguments
  | _, _ => pure cells

def boundReceiver (closure : Closure) (paren : Token) : Run Value := do
  match ← Run.read fun m => m.store.get? closure.env "this" with
  | some value => pure value
  | none => Run.fail .initializerUnbound paren

/-- Statements in order; what one declares is visible in those behind it. -/
def sequence (execute : Stmt → Place → Run Progress) : List Stmt → Place → Run Progress
  | [], place => pure (.next place)
  | statement :: rest, place => do
    match ← execute statement place with
    | .next place => sequence execute rest place
    | .returning value => pure (.returning value)

def repeatWhile (place : Place) (condition : Run Value) (body : Run Progress) : Nat → Run Progress
  | 0 => Run.stop .outOfFuel
  | fuel + 1 => do
    if (← condition).isTruthy then
      match ← body with
      | .next _ => repeatWhile place condition body fuel
      | .returning value => pure (.returning value)
    else pure (.next place)

def callClosure (execute : Stmt → Place → Run Progress) (closure : Closure) (paren : Token)
    (arguments : List Value) : Run Value := do
  let cells ← bindParams closure.env closure.declaration.params arguments
  let progress ← sequence execute closure.declaration.body (.inside cells)
  if closure.isInitializer then boundReceiver closure paren else pure progress.result

def instantiate (execute : Stmt → Place → Run Progress) (c : Class) (paren : Token)
    (arguments : List Value) : Run Value := do
  let id ← Run.onStore Store.newObject
  match c.findMethod initializerName with
  | some initializer => do
    let bound ← Run.bindReceiver initializer (.object id c)
    let _ ← callClosure execute bound paren arguments
    pure (.object id c)
  | none => pure (.object id c)

def call (execute : Stmt → Place → Run Progress) (callee : Value) (paren : Token)
    (arguments : List Value) : Run Value :=
  match callee with
  | .native .clock => Run.readClock paren
  | .function _ closure => callClosure execute closure paren arguments
  | .classValue c => instantiate execute c paren arguments
  | _ => Run.fail .notCallable paren

def declareClass (place : Place) (name : Token) (superclass : Option Class)
    (methods : List FunctionDecl) : Run Unit := do
  Run.define place.target name.lexeme .nil
  let scope ← Run.methodScope place.cells superclass
  let id ← Run.onStore Store.newIdentity
  Run.define place.target name.lexeme
    (.classValue ⟨id, name.lexeme, superclass, Run.methodTable scope methods⟩)

mutual

def evaluate : Nat → Expr → Env → Run Value
  | 0, _, _ => Run.stop .outOfFuel
  | fuel + 1, e, cells =>
    match e with
    | .literal literal => pure literal.value
    | .grouping inner => evaluate fuel inner cells
    | .unary operator operand => do
      let value ← evaluate fuel operand cells
      Run.ofExcept (Operator.unary operator value)
    | .binary left operator right => do
      let x ← evaluate fuel left cells
      let y ← evaluate fuel right cells
      Run.ofExcept (Operator.binary operator x y)
    | .logical left operator right => do
      let value ← evaluate fuel left cells
      if Operator.decides operator value then pure value else evaluate fuel right cells
    | .var _ name => readVariable name cells
    | .assign _ name e => do
      let value ← evaluate fuel e cells
      writeVariable name cells value
      pure value
    | .call callee paren arguments => do
      let f ← evaluate fuel callee cells
      let values ← Run.traverse (fun argument => evaluate fuel argument cells) arguments
      Run.checkCall f paren values.length
      call (execute fuel) f paren values
    | .get object name => do
      match ← evaluate fuel object cells with
      | .object id c => Run.property id c name
      | _ => Run.fail .noProperties name
    | .set object name e => do
      match ← evaluate fuel object cells with
      | .object id _ => do
        let value ← evaluate fuel e cells
        Run.onStore fun store => ((), store.setField id name.lexeme value)
        pure value
      | _ => Run.fail .noFields name
    | .this _ keyword => readVariable keyword cells
    | .super _ keyword method => superMethod keyword method cells

def execute : Nat → Stmt → Place → Run Progress
  | 0, _, _ => Run.stop .outOfFuel
  | fuel + 1, statement, place =>
    match statement with
    | .expression e => do
      let _ ← evaluate fuel e place.cells
      pure (.next place)
    | .print e => do
      let value ← evaluate fuel e place.cells
      Run.printLine value.display
      pure (.next place)
    | .var name none => do
      let place ← declare place name.lexeme
      Run.define place.target name.lexeme .nil
      pure (.next place)
    | .var name (some initializer) => do
      let place ← declare place name.lexeme
      let value ← evaluate fuel initializer place.cells
      Run.define place.target name.lexeme value
      pure (.next place)
    | .block statements => do
      match ← sequence (execute fuel) statements (.inside place.cells) with
      | .next _ => pure (.next place)
      | .returning value => pure (.returning value)
    | .branch condition thenBranch elseBranch => do
      if (← evaluate fuel condition place.cells).isTruthy then execute fuel thenBranch place
      else
        match elseBranch with
        | some statement => execute fuel statement place
        | none => pure (.next place)
    | .loop condition body =>
      repeatWhile place (evaluate fuel condition place.cells) (execute fuel body place) fuel
    | .function declaration => do
      let place ← declare place declaration.name.lexeme
      let function ← Run.newFunction ⟨declaration, place.cells, false⟩
      Run.define place.target declaration.name.lexeme function
      pure (.next place)
    | .ret _ none => pure (.returning .nil)
    | .ret _ (some e) => do
      let value ← evaluate fuel e place.cells
      pure (.returning value)
    | .classDecl name none methods => do
      let place ← declare place name.lexeme
      declareClass place name none methods
      pure (.next place)
    | .classDecl name (some e) methods => do
      let place ← declare place name.lexeme
      let value ← evaluate fuel e place.cells
      let superclass ← Run.requireClass (Stmt.superclassName name e) value
      declareClass place name (some superclass) methods
      pure (.next place)

end

def program (fuel : Nat) : List Stmt → Run Unit
  | [] => pure ()
  | statement :: rest => do
    let _ ← execute fuel statement .top
    program fuel rest

/-- Runs a text on its own, with the same static checks as a session. -/
def run (fuel : Nat) (source : String) (clock : Clock) (limit : Option Nat) :
    Outcome Unit × Machine :=
  match checkProgram source 0 with
  | (.ok (statements, _), _) =>
    Outcome.ofRun (program fuel statements) (Machine.initial clock limit)
  | (.error errors, _) => (.rejected errors, Machine.initial clock limit)

end Lox.Reference
