import Lox.Evaluation.Machine

namespace Lox

/-- How a statement ends: normally, or on its way out of the innermost call. -/
inductive Flow where
  | normal
  | returning (value : Value)

def Flow.result : Flow → Value
  | normal => .nil
  | returning value => value

namespace Operator

def unary (operator : Token) (operand : Value) : Except RuntimeError Value :=
  match operator.kind with
  | .symbol .minus =>
    match operand with
    | .number x => .ok (.number (-x))
    | _ => .error ⟨.operandNumber, operator⟩
  | .symbol .bang => .ok (.bool !operand.isTruthy)
  | _ => .error ⟨.unaryOperator, operator⟩

def onNumbers (operator : Token) (left right : Value) (f : Float → Float → Value) :
    Except RuntimeError Value :=
  match left, right with
  | .number x, .number y => .ok (f x y)
  | _, _ => .error ⟨.operandNumber, operator⟩

def sum (operator : Token) (left right : Value) : Except RuntimeError Value :=
  match left, right with
  | .number x, .number y => .ok (.number (x + y))
  | .string s, .string t => .ok (.string (s ++ t))
  | _, _ => .error ⟨.operandsNumbersOrStrings, operator⟩

def binary (operator : Token) (left right : Value) : Except RuntimeError Value :=
  match operator.kind with
  | .symbol .plus => sum operator left right
  | .symbol .minus => onNumbers operator left right fun x y => .number (x - y)
  | .symbol .star => onNumbers operator left right fun x y => .number (x * y)
  | .symbol .slash => onNumbers operator left right fun x y => .number (x / y)
  | .symbol .greater => onNumbers operator left right fun x y => .bool (x > y)
  | .symbol .greaterEqual => onNumbers operator left right fun x y => .bool (x ≥ y)
  | .symbol .less => onNumbers operator left right fun x y => .bool (x < y)
  | .symbol .lessEqual => onNumbers operator left right fun x y => .bool (x ≤ y)
  | .symbol .equalEqual => .ok (.bool (left.equals right))
  | .symbol .bangEqual => .ok (.bool !left.equals right)
  | _ => .error ⟨.binaryOperator, operator⟩

def decides (operator : Token) (left : Value) : Bool :=
  match operator.kind with
  | .symbol .orWord => left.isTruthy
  | _ => !left.isTruthy

end Operator

/-- What the steps of a run belong to, by what it comes to. -/
inductive Activity : Type → Type where
  | expression (e : Expr) : Activity Value
  | statement (statement : Stmt) (env : Env) : Activity Flow
  | printing (text : String) : Activity Unit
  | clock : Activity Value
  | binding (method : Closure) (receiver : Value) : Activity Closure
  | calling (closure : Closure) : Activity Value
  | entering (closure : Closure) : Activity Env
  | leaving (closure : Closure) (flow : Flow) : Activity Value
  | constructing (c : Class) : Activity Value

def Activity.isPrinting {α : Type} : Activity α → Bool
  | printing _ => true
  | _ => false

/-- How programs run in a monad: what a step of the machine is there, and what is done around an
activity. -/
structure Runner (m : Type → Type) where
  step {α : Type} : Run α → m α
  around {α : Type} : Activity α → m α → m α

/-- A runner with what code at a place may say about functions, methods and receivers. -/
structure Dialect (m : Type → Type) (ρ : Type) extends Runner m where
  env : ρ → Env
  inside : ρ → Env → ρ
  newFunction : FunctionDecl → ρ → m Value
  call : (Stmt → ρ → m Flow) → Value → Token → List Value → m Value
  property : Nat → Class → Token → m Value
  receiver : Nat → Token → ρ → m Value
  superMethod : Nat → Token → Token → ρ → m Value

namespace Run

variable {m : Type → Type} [Monad m] {α β : Type}

def traverse (f : α → m β) : List α → m (List β)
  | [] => pure []
  | a :: rest => do
    let b ← f a
    let others ← traverse f rest
    pure (b :: others)

def sequence (execute : Stmt → m Flow) : List Stmt → m Flow
  | [] => pure .normal
  | statement :: rest => do
    match ← execute statement with
    | .normal => sequence execute rest
    | .returning value => pure (.returning value)

def requireClass (token : Token) : Value → Run Class
  | .classValue c => pure c
  | _ => fail .superclassNotClass token

/-- Methods of a class with a superclass are closed over a scope that holds `super`. -/
def methodScope (env : Env) : Option Class → Run Env
  | none => pure env
  | some superclass => do
    let scope ← openScope env
    define scope "super" (.classValue superclass)
    pure scope

def methodTable (env : Env) (methods : List FunctionDecl) : Table Closure :=
  .ofList <| methods.map fun method =>
    (method.name.lexeme, ⟨method, env, method.name.lexeme == initializerName⟩)

def declareClass (env : Env) (name : Token) (superclass : Option Class)
    (methods : List FunctionDecl) : Run Unit := do
  define env name.lexeme .nil
  let scope ← methodScope env superclass
  let id ← onStore Store.newIdentity
  define env name.lexeme (.classValue ⟨id, name.lexeme, superclass, methodTable scope methods⟩)

def learn (locals : Locals) : Run Unit :=
  modify fun s => { s with locals := s.locals.merge locals }

end Run

namespace Runner

variable {m : Type → Type} [Monad m] (runner : Runner m)

def repeatWhile (condition : m Value) (body : m Flow) : Nat → m Flow
  | 0 => runner.step (Run.stop .outOfFuel)
  | fuel + 1 => do
    if (← condition).isTruthy then
      match ← body with
      | .normal => repeatWhile condition body fuel
      | .returning value => pure (.returning value)
    else pure .normal

def bindReceiver (method : Closure) (receiver : Value) : m Closure :=
  runner.around (.binding method receiver) (runner.step (Run.bindReceiver method receiver))

/-- A field hides a method of the same name. -/
def property (object : Nat) (c : Class) (name : Token) : m Value := do
  match ← runner.step (Run.read fun s => s.store.field? object name.lexeme) with
  | some value => pure value
  | none =>
    match c.findMethod name.lexeme with
    | some method => do
      let closure ← runner.bindReceiver method (.object object c)
      runner.step (Run.newFunction closure)
    | none => runner.step (Run.fail (.undefinedProperty name.lexeme) name)

/-- The method is looked up from the superclass in the scope that `super` denotes, and its receiver
is found one scope further in. -/
def superMethod (id : Nat) (keyword method : Token) (env : Env) : m Value := do
  match ← runner.step (Run.read fun s => s.locals[id]?) with
  | none => runner.step (Run.fail .superUnresolved keyword)
  | some distance =>
    match ← runner.step (Run.read fun s => s.store.getAt? env distance "super") with
    | some (.classValue superclass) =>
      match ← runner.step (Run.read fun s => s.store.getAt? env (distance - 1) "this") with
      | some (.object object c) =>
        match superclass.findMethod method.lexeme with
        | some found => do
          let closure ← runner.bindReceiver found (.object object c)
          runner.step (Run.newFunction closure)
        | none => runner.step (Run.fail (.undefinedProperty method.lexeme) method)
      | _ => runner.step (Run.fail .superWithoutReceiver keyword)
    | _ => runner.step (Run.fail (.superUnbound keyword.lexeme) keyword)

/-- The body of a function runs in a scope of its own inside the closure. An initializer gives its
receiver, however its body ended. -/
def callClosure (execute : Stmt → Env → m Flow) (closure : Closure) (paren : Token)
    (arguments : List Value) : m Value :=
  runner.around (.calling closure) do
    let env ← runner.around (.entering closure) (runner.step (Run.openScope closure.env))
    runner.step (Run.bindParams env closure.declaration.params arguments)
    let flow ← Run.sequence (fun statement => execute statement env) closure.declaration.body
    runner.around (.leaving closure flow) <| runner.step <|
      if closure.isInitializer then Run.boundReceiver closure paren else pure flow.result

def instantiate (execute : Stmt → Env → m Flow) (c : Class) (paren : Token)
    (arguments : List Value) : m Value :=
  runner.around (.constructing c) do
    let id ← runner.step (Run.onStore Store.newObject)
    match c.findMethod initializerName with
    | some initializer => do
      let bound ← runner.bindReceiver initializer (.object id c)
      let _ ← runner.callClosure execute bound paren arguments
      pure (.object id c)
    | none => pure (.object id c)

def call (execute : Stmt → Env → m Flow) (callee : Value) (paren : Token)
    (arguments : List Value) : m Value :=
  match callee with
  | .native .clock => runner.around .clock (runner.step (Run.readClock paren))
  | .function _ closure => runner.callClosure execute closure paren arguments
  | .classValue c => runner.instantiate execute c paren arguments
  | _ => runner.step (Run.fail .notCallable paren)

/-- Receivers and superclasses are found in scopes, as all names are. -/
def dialect : Dialect m Env :=
  { runner with
    env := id
    inside := fun _ env => env
    newFunction := fun declaration env => runner.step (Run.newFunction ⟨declaration, env, false⟩)
    call := runner.call
    property := runner.property
    receiver := fun id keyword env => runner.step (Run.readVariable id keyword env)
    superMethod := runner.superMethod }

end Runner

namespace Dialect

variable {m : Type → Type} [Monad m] {ρ : Type} (dialect : Dialect m ρ)

def evaluateStep (evaluate : Expr → ρ → m Value) (execute : Stmt → ρ → m Flow) (e : Expr)
    (place : ρ) : m Value :=
  match e with
  | .literal literal => pure literal.value
  | .grouping inner => evaluate inner place
  | .unary operator operand => do
    let value ← evaluate operand place
    dialect.step (Run.ofExcept (Operator.unary operator value))
  | .binary left operator right => do
    let x ← evaluate left place
    let y ← evaluate right place
    dialect.step (Run.ofExcept (Operator.binary operator x y))
  | .logical left operator right => do
    let value ← evaluate left place
    if Operator.decides operator value then pure value else evaluate right place
  | .var id name => dialect.step (Run.readVariable id name (dialect.env place))
  | .assign id name e => do
    let value ← evaluate e place
    dialect.step (Run.writeVariable id name (dialect.env place) value)
    pure value
  | .call callee paren arguments => do
    let f ← evaluate callee place
    let values ← Run.traverse (fun argument => evaluate argument place) arguments
    dialect.step (Run.checkCall f paren values.length)
    dialect.call execute f paren values
  | .get object name => do
    match ← evaluate object place with
    | .object id c => dialect.property id c name
    | _ => dialect.step (Run.fail .noProperties name)
  | .set object name e => do
    match ← evaluate object place with
    | .object id _ => do
      let value ← evaluate e place
      dialect.step (Run.onStore fun store => ((), store.setField id name.lexeme value))
      pure value
    | _ => dialect.step (Run.fail .noFields name)
  | .this id keyword => dialect.receiver id keyword place
  | .super id keyword method => dialect.superMethod id keyword method place

def executeStep (evaluate : Expr → ρ → m Value) (execute : Stmt → ρ → m Flow) (rounds : Nat)
    (statement : Stmt) (place : ρ) : m Flow :=
  match statement with
  | .expression e => do
    let _ ← evaluate e place
    pure .normal
  | .print e => do
    let value ← evaluate e place
    dialect.around (.printing value.display) (dialect.step (Run.printLine value.display))
    pure .normal
  | .var name none => do
    dialect.step (Run.define (dialect.env place) name.lexeme .nil)
    pure .normal
  | .var name (some initializer) => do
    let value ← evaluate initializer place
    dialect.step (Run.define (dialect.env place) name.lexeme value)
    pure .normal
  | .block statements => do
    let inner ← dialect.step (Run.openScope (dialect.env place))
    Run.sequence (fun statement => execute statement (dialect.inside place inner)) statements
  | .branch condition thenBranch elseBranch => do
    if (← evaluate condition place).isTruthy then execute thenBranch place
    else
      match elseBranch with
      | some statement => execute statement place
      | none => pure .normal
  | .loop condition body =>
    dialect.repeatWhile (evaluate condition place) (execute body place) rounds
  | .function declaration => do
    let function ← dialect.newFunction declaration place
    dialect.step (Run.define (dialect.env place) declaration.name.lexeme function)
    pure .normal
  | .ret _ none => pure (.returning .nil)
  | .ret _ (some e) => do
    let value ← evaluate e place
    pure (.returning value)
  | .classDecl name none methods => do
    dialect.step (Run.declareClass (dialect.env place) name none methods)
    pure .normal
  | .classDecl name (some e) methods => do
    let value ← evaluate e place
    let superclass ← dialect.step (Run.requireClass (Stmt.superclassName name e) value)
    dialect.step (Run.declareClass (dialect.env place) name (some superclass) methods)
    pure .normal

mutual

/-- The fuel bounds how deep evaluation nests and how often one loop goes round; when it is used up
the run stops for that reason and no other. -/
def evaluate : Nat → Expr → ρ → m Value
  | 0, _, _ => dialect.step (Run.stop .outOfFuel)
  | fuel + 1, e, place =>
    dialect.around (.expression e) (dialect.evaluateStep (evaluate fuel) (execute fuel) e place)

def execute : Nat → Stmt → ρ → m Flow
  | 0, _, _ => dialect.step (Run.stop .outOfFuel)
  | fuel + 1, statement, place =>
    dialect.around (.statement statement (dialect.env place))
      (dialect.executeStep (evaluate fuel) (execute fuel) fuel statement place)

end

/-- Statements at the top level, where a `return` ends only the statement it stands in. -/
def program (top : ρ) (fuel : Nat) : List Stmt → m Unit
  | [] => pure ()
  | statement :: rest => do
    let _ ← dialect.execute fuel statement top
    program top fuel rest

def interpret (top : ρ) (fuel : Nat) (statements : List Stmt) (locals : Locals) : m Unit := do
  dialect.step (Run.learn locals)
  dialect.program top fuel statements

end Dialect

namespace Run

def plain : Runner Run := ⟨fun step => step, fun _ x => x⟩

abbrev repeatWhile : Run Value → Run Flow → Nat → Run Flow := plain.repeatWhile

abbrev property : Nat → Class → Token → Run Value := plain.property

abbrev superMethod : Nat → Token → Token → Env → Run Value := plain.superMethod

abbrev callClosure : (Stmt → Env → Run Flow) → Closure → Token → List Value → Run Value :=
  plain.callClosure

abbrev instantiate : (Stmt → Env → Run Flow) → Class → Token → List Value → Run Value :=
  plain.instantiate

abbrev call : (Stmt → Env → Run Flow) → Value → Token → List Value → Run Value := plain.call

abbrev evaluate : Nat → Expr → Env → Run Value := plain.dialect.evaluate

abbrev execute : Nat → Stmt → Env → Run Flow := plain.dialect.execute

abbrev program : Nat → List Stmt → Run Unit := plain.dialect.program globals

abbrev interpret : Nat → List Stmt → Locals → Run Unit := plain.dialect.interpret globals

variable {α : Type}

@[simp] theorem plain_step (x : Run α) : plain.dialect.step x = x := rfl

@[simp] theorem plain_around (activity : Activity α) (x : Run α) :
    plain.dialect.around activity x = x := rfl

@[simp] theorem plain_env (env : Env) : plain.dialect.env env = env := rfl

@[simp] theorem plain_newFunction (declaration : FunctionDecl) (env : Env) :
    plain.dialect.newFunction declaration env = newFunction ⟨declaration, env, false⟩ :=
  rfl

theorem property_eq (object : Nat) (c : Class) (name : Token) :
    property object c name = (do
      match ← read fun m => m.store.field? object name.lexeme with
      | some value => pure value
      | none =>
        match c.findMethod name.lexeme with
        | some method => newFunction (← bindReceiver method (.object object c))
        | none => fail (.undefinedProperty name.lexeme) name) :=
  rfl

theorem superMethod_eq (id : Nat) (keyword method : Token) (env : Env) :
    superMethod id keyword method env = (do
      match ← read fun m => m.locals[id]? with
      | none => fail .superUnresolved keyword
      | some distance =>
        match ← read fun m => m.store.getAt? env distance "super" with
        | some (.classValue superclass) =>
          match ← read fun m => m.store.getAt? env (distance - 1) "this" with
          | some (.object object c) =>
            match superclass.findMethod method.lexeme with
            | some found => newFunction (← bindReceiver found (.object object c))
            | none => fail (.undefinedProperty method.lexeme) method
          | _ => fail .superWithoutReceiver keyword
        | _ => fail (.superUnbound keyword.lexeme) keyword) :=
  rfl

theorem callClosure_eq (execute : Stmt → Env → Run Flow) (closure : Closure) (paren : Token)
    (arguments : List Value) :
    callClosure execute closure paren arguments = (do
      let env ← openScope closure.env
      bindParams env closure.declaration.params arguments
      let flow ← sequence (fun statement => execute statement env) closure.declaration.body
      if closure.isInitializer then boundReceiver closure paren else pure flow.result) :=
  rfl

theorem execute_succ (fuel : Nat) (statement : Stmt) (env : Env) :
    execute (fuel + 1) statement env =
      plain.dialect.executeStep (evaluate fuel) (execute fuel) fuel statement env :=
  rfl

theorem program_cons (fuel : Nat) (statement : Stmt) (rest : List Stmt) :
    program fuel (statement :: rest) = execute fuel statement globals >>= fun _ => program fuel rest :=
  rfl

theorem interpret_eq (fuel : Nat) (statements : List Stmt) (locals : Locals) :
    interpret fuel statements locals = learn locals >>= fun _ => program fuel statements :=
  rfl

end Run

end Lox
