import Lox.Resolution
import Lox.Sink
import Lox.Store

namespace Lox

namespace RuntimeError

inductive Cause where
  /-- A global name that is not bound at this moment. -/
  | undefinedGlobal (name : String)
  /-- A name with a distance, where the scope or the binding is missing. -/
  | undefinedLocal (name : String)
  | undefinedProperty (name : String)
  | noProperties
  | noFields
  | operandNumber
  | operandsNumbersOrStrings
  | unaryOperator
  | binaryOperator
  | notCallable
  | argumentCount (expected given : Nat)
  | superclassNotClass
  | superUnresolved
  | superUnbound (name : String)
  | superWithoutReceiver
  | initializerUnbound
  /-- There was no time to be read, for a reason that the system gives. -/
  | clockFailed (reason : String)
deriving DecidableEq, Repr

def Cause.message : Cause → String
  | undefinedGlobal name | undefinedLocal name | superUnbound name =>
    "Undefined variable '" ++ name ++ "'."
  | undefinedProperty name => "Undefined property '" ++ name ++ "'."
  | noProperties => "Only instances have properties."
  | noFields => "Only instances have fields."
  | operandNumber => "Operand must be a number."
  | operandsNumbersOrStrings => "Operands must be two numbers or two strings."
  | unaryOperator => "Invalid unary operator."
  | binaryOperator => "Invalid binary operator."
  | notCallable => "Can only call functions and classes."
  | argumentCount expected given =>
    "Expected " ++ toString expected ++ " arguments but got " ++ toString given ++ "."
  | superclassNotClass => "Superclass must be a class."
  | superUnresolved => "Can't use 'super' outside of a class."
  | superWithoutReceiver => "Can't use 'this' outside of a class."
  | initializerUnbound => "Initializer is not bound to an instance."
  | clockFailed reason => "Clock error: " ++ reason

end RuntimeError

structure RuntimeError where
  cause : RuntimeError.Cause
  token : Token
deriving DecidableEq, Repr

inductive Stop where
  | error (error : RuntimeError)
  | sinkClosed
  | outOfFuel
deriving DecidableEq, Repr

/-- The system clock: what it gives at one call after the other, in seconds since the Unix epoch, or
why it gives nothing, and how many calls there were. -/
structure Clock where
  readings : Nat → Except String Float
  calls : Nat

namespace Clock

def reading (clock : Clock) : Except String Float := clock.readings clock.calls

def next (clock : Clock) : Clock := { clock with calls := clock.calls + 1 }

def fixed (seconds : Float) : Clock := ⟨fun _ => .ok seconds, 0⟩

instance : Coe Float Clock := ⟨fixed⟩

def sinceEpoch (nanoseconds : Int) : Except String Float :=
  match nanoseconds with
  | .ofNat n => .ok (Float.ofNat (n / 1000000000) + Float.ofNat (n % 1000000000) / 1e9)
  | .negSucc _ => .error "second time provided was later than self"

end Clock

structure Machine where
  locals : Locals
  store : Store
  sink : Sink
  clock : Clock

abbrev Run := EStateM Stop Machine

def globals : Env := [0]

namespace Machine

def initial (clock : Clock) (limit : Option Nat) : Machine :=
  { locals := ∅
    store := Store.initial.define 0 "clock" (.native .clock)
    sink := .fresh limit
    clock := clock }

end Machine

namespace Run

variable {α β : Type}

def stop (reason : Stop) : Run α := fun m => .error reason m

def fail (cause : RuntimeError.Cause) (token : Token) : Run α := stop (.error ⟨cause, token⟩)

def ofExcept (result : Except RuntimeError α) : Run α := fun m =>
  match result with
  | .ok value => .ok value m
  | .error error => .error (.error error) m

def onStore (step : Store → α × Store) : Run α := fun m =>
  let (value, store) := step m.store
  .ok value { m with store := store }

def read (f : Machine → α) : Run α := fun m => .ok (f m) m

def tick : Run (Except String Float) := fun m =>
  .ok m.clock.reading { m with clock := m.clock.next }

/-- The clock is read anew at every call, and may fail. -/
def readClock (paren : Token) : Run Value := do
  match ← tick with
  | .ok seconds => pure (.number seconds)
  | .error reason => fail (.clockFailed reason) paren

def openScope (env : Env) : Run Env := do
  let scope ← onStore Store.newScope
  pure (scope :: env)

def define (env : Env) (name : String) (value : Value) : Run Unit :=
  match env with
  | [] => pure ()
  | scope :: _ => onStore fun store => ((), store.define scope name value)

def write (text : String) : Run Unit := fun m =>
  if m.sink.accepts text then .ok () { m with sink := m.sink.append text }
  else .error .sinkClosed m

def printLine (text : String) : Run Unit := do
  write text
  write "\n"

def readVariable (id : Nat) (name : Token) (env : Env) : Run Value := fun m =>
  match m.locals[id]? with
  | some distance =>
    match m.store.getAt? env distance name.lexeme with
    | some value => .ok value m
    | none => fail (.undefinedLocal name.lexeme) name m
  | none =>
    match m.store.get? globals name.lexeme with
    | some value => .ok value m
    | none => fail (.undefinedGlobal name.lexeme) name m

/-- An occurrence with a distance stores in that scope, whether or not the name is bound there; a
global name has to be bound. -/
def writeVariable (id : Nat) (name : Token) (env : Env) (value : Value) : Run Unit := do
  match ← read fun m => m.locals[id]? with
  | some distance =>
    match env[distance]? with
    | some scope => onStore fun store => ((), store.define scope name.lexeme value)
    | none => fail (.undefinedLocal name.lexeme) name
  | none =>
    match ← read fun m => m.store.bindingScope? globals name.lexeme with
    | some scope => onStore fun store => ((), store.define scope name.lexeme value)
    | none => fail (.undefinedGlobal name.lexeme) name

theorem writeVariable_local {id distance : Nat} {m : Machine} (name : Token) (env : Env)
    (value : Value) (h : m.locals[id]? = some distance) :
    writeVariable id name env value m =
      match m.store.assignAt? env distance name.lexeme value with
      | some store => .ok () { m with store := store }
      | none => fail (.undefinedLocal name.lexeme) name m := by
  simp only [writeVariable, read, bind, EStateM.bind, h, Store.assignAt?]
  cases env[distance]? <;> rfl

theorem writeVariable_global {id : Nat} {m : Machine} (name : Token) (env : Env) (value : Value)
    (h : m.locals[id]? = none) :
    writeVariable id name env value m =
      match m.store.assign? globals name.lexeme value with
      | some store => .ok () { m with store := store }
      | none => fail (.undefinedGlobal name.lexeme) name m := by
  simp only [writeVariable, read, bind, EStateM.bind, h, Store.assign?]
  cases m.store.bindingScope? globals name.lexeme <;> rfl

def newFunction (closure : Closure) : Run Value := do
  let id ← onStore Store.newIdentity
  pure (.function id closure)

def bindReceiver (method : Closure) (receiver : Value) : Run Closure := do
  let env ← openScope method.env
  define env "this" receiver
  pure { method with env := env }

/-- Parameters without an argument stay unbound, and surplus arguments are dropped. -/
def bindParams (env : Env) : List Token → List Value → Run Unit
  | param :: params, argument :: arguments => do
    define env param.lexeme argument
    bindParams env params arguments
  | _, _ => pure ()

def boundReceiver (closure : Closure) (paren : Token) : Run Value := do
  match ← read fun m => m.store.getAt? closure.env 0 "this" with
  | some value => pure value
  | none => fail .initializerUnbound paren

def checkCall (callee : Value) (paren : Token) (given : Nat) : Run Unit :=
  match callee.arity? with
  | none => fail .notCallable paren
  | some expected =>
    if given = expected then pure () else fail (.argumentCount expected given) paren

end Run

end Lox
