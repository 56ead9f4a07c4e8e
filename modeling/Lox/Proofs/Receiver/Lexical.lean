import Lox.Session
import Lox.Proofs.Session.Accepted

namespace Lox.Lexical

/-- What `this` and `super` denote in the body of a method. -/
structure Self where
  object : Nat
  objectClass : Class
  superclass : Option Class

def Self.receiver (self : Self) : Value := .object self.object self.objectClass

/-- The method that is found in a class, and the superclass of the class that declared it. -/
def findDeclared (name : String) : Class → Option (Closure × Option Class)
  | ⟨_, _, none, methods⟩ => (methods.get? name).map fun method => (method, none)
  | ⟨_, _, some superclass, methods⟩ =>
    match methods.get? name with
    | some method => some (method, some superclass)
    | none => findDeclared name superclass

/-- A machine, and by their identities what the functions made so far have taken along. -/
structure Tracked where
  machine : Machine
  selves : Nat → Option Self

abbrev Follow := EStateM Stop Tracked

variable {α β : Type}

def lift (step : Run α) : Follow α := fun t =>
  match step t.machine with
  | .ok a m => .ok a { t with machine := m }
  | .error reason m => .error reason { t with machine := m }

/-- A function takes along what `this` and `super` denote where it is made. -/
def newFunction (self : Option Self) (closure : Closure) : Follow Value := do
  let id ← lift (Run.onStore Store.newIdentity)
  modify fun t => { t with selves := fun other => if other = id then self else t.selves other }
  pure (.function id closure)

def property (object : Nat) (c : Class) (name : Token) : Follow Value := do
  match ← lift (Run.read fun m => m.store.field? object name.lexeme) with
  | some value => pure value
  | none =>
    match findDeclared name.lexeme c with
    | some (method, superclass) => do
      let bound ← lift (Run.bindReceiver method (.object object c))
      newFunction (some ⟨object, c, superclass⟩) bound
    | none => lift (Run.fail (.undefinedProperty name.lexeme) name)

def readReceiver (self : Option Self) (cause : RuntimeError.Cause) (token : Token) :
    Follow Value :=
  match self with
  | some self => pure self.receiver
  | none => lift (Run.fail cause token)

/-- The method is looked up from the superclass, and its receiver is the same. -/
def superMethod (self : Option Self) (keyword method : Token) : Follow Value :=
  match self with
  | some ⟨object, c, some superclass⟩ =>
    match findDeclared method.lexeme superclass with
    | some (found, above) => do
      let bound ← lift (Run.bindReceiver found (.object object c))
      newFunction (some ⟨object, c, above⟩) bound
    | none => lift (Run.fail (.undefinedProperty method.lexeme) method)
  | _ => lift (Run.fail .superUnresolved keyword)

def callClosure (execute : Stmt → Env × Option Self → Follow Flow) (closure : Closure)
    (self : Option Self) (paren : Token) (arguments : List Value) : Follow Value := do
  let env ← lift (Run.openScope closure.env)
  lift (Run.bindParams env closure.declaration.params arguments)
  let flow ← Run.sequence (fun statement => execute statement (env, self)) closure.declaration.body
  if closure.isInitializer then readReceiver self .initializerUnbound paren else pure flow.result

def instantiate (execute : Stmt → Env × Option Self → Follow Flow) (c : Class) (paren : Token)
    (arguments : List Value) : Follow Value := do
  let id ← lift (Run.onStore Store.newObject)
  match findDeclared initializerName c with
  | some (initializer, superclass) => do
    let bound ← lift (Run.bindReceiver initializer (.object id c))
    let _ ← callClosure execute bound (some ⟨id, c, superclass⟩) paren arguments
    pure (.object id c)
  | none => pure (.object id c)

def call (execute : Stmt → Env × Option Self → Follow Flow) (callee : Value) (paren : Token)
    (arguments : List Value) : Follow Value :=
  match callee with
  | .native .clock => lift (Run.readClock paren)
  | .function id closure => do
    let t ← get
    callClosure execute closure (t.selves id) paren arguments
  | .classValue c => instantiate execute c paren arguments
  | _ => lift (Run.fail .notCallable paren)

/-- Code stands in an environment and, in a method, in what `this` and `super` denote. -/
def dialect : Dialect Follow (Env × Option Self) where
  step := lift
  around _ x := x
  env := Prod.fst
  inside place env := (env, place.2)
  newFunction declaration place := newFunction place.2 ⟨declaration, place.1, false⟩
  call := call
  property := property
  receiver _ keyword place := readReceiver place.2 (.undefinedLocal keyword.lexeme) keyword
  superMethod _ keyword method place := superMethod place.2 keyword method

abbrev evaluate : Nat → Expr → Env × Option Self → Follow Value := dialect.evaluate

abbrev execute : Nat → Stmt → Env × Option Self → Follow Flow := dialect.execute

abbrev program : Nat → List Stmt → Follow Unit := dialect.program (globals, none)

abbrev interpret : Nat → List Stmt → Locals → Follow Unit := dialect.interpret (globals, none)

/-- A session in which functions take along what `this` and `super` denote. -/
structure Session where
  session : Lox.Session
  selves : Nat → Option Self

namespace Session

def initial (clock : Clock) (limit : Option Nat) : Session :=
  ⟨.initial clock limit, fun _ => none⟩

def run (fuel : Nat) (source : String) (s : Session) : Outcome Unit × Session :=
  let nextId := nextIdOf source s.session.nextId
  if (staticErrors source s.session.nextId).isEmpty then
    match interpret fuel (statementsOf source s.session.nextId)
        (localsOf source s.session.nextId) ⟨s.session.machine, s.selves⟩ with
    | .ok result t => (.finished result, ⟨⟨nextId, t.machine⟩, t.selves⟩)
    | .error reason t => (.ofStop reason, ⟨⟨nextId, t.machine⟩, t.selves⟩)
  else
    (.rejected (staticErrors source s.session.nextId),
      { s with session := { s.session with nextId := nextId } })

def runAll (s : Session) : List (Nat × String) → Session
  | [] => s
  | (fuel, source) :: rest => runAll (s.run fuel source).2 rest

end Session

end Lox.Lexical
