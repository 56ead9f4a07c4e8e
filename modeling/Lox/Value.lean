import Lox.Syntax
import Lox.Table

namespace Lox

/-- The scopes visible at a place, by number, innermost first. -/
abbrev Env := List Nat

structure Closure where
  declaration : FunctionDecl
  env : Env
  isInitializer : Bool

def Closure.name (closure : Closure) : String := closure.declaration.name.lexeme

def Closure.arity (closure : Closure) : Nat := closure.declaration.params.length

structure Class where
  id : Nat
  name : String
  superclass : Option Class
  methods : Table Closure

namespace Class

def findMethod (name : String) : Class → Option Closure
  | ⟨_, _, none, methods⟩ => methods.get? name
  | ⟨_, _, some superclass, methods⟩ =>
    match methods.get? name with
    | some method => some method
    | none => findMethod name superclass

def arity (c : Class) : Nat :=
  match c.findMethod initializerName with
  | some initializer => initializer.arity
  | none => 0

end Class

inductive Native where
  | clock
deriving DecidableEq, Repr

/-- Functions, classes and objects carry an identity; the fields of an object are in the store. -/
inductive Value where
  | nil
  | bool (value : Bool)
  | number (value : Float)
  | string (value : String)
  | native (function : Native)
  | function (id : Nat) (closure : Closure)
  | classValue (value : Class)
  | object (id : Nat) (value : Class)

def Literal.value : Literal → Value
  | .number x => .number x
  | .string s => .string s
  | .bool b => .bool b
  | .nil => .nil

namespace Value

def isTruthy : Value → Bool
  | nil => false
  | bool value => value
  | _ => true

/-- Numbers compare as doubles, functions, classes and objects by identity, and values of
different types are never equal. -/
def equals : Value → Value → Bool
  | nil, nil => true
  | bool a, bool b => a == b
  | number a, number b => a == b
  | string a, string b => a == b
  | native a, native b => a == b
  | function a _, function b _ => a == b
  | classValue a, classValue b => a.id == b.id
  | object a _, object b _ => a == b
  | _, _ => false

def arity? : Value → Option Nat
  | native .clock => some 0
  | function _ closure => some closure.arity
  | classValue c => some c.arity
  | _ => none

/-- Programs print a whole number with all its digits and no fraction. -/
def numberFormat : NumberFormat :=
  { infinity := "Infinity", wholeEnd := "", wholeBound := none, signedZero := true }

def display : Value → String
  | nil => "nil"
  | bool true => "true"
  | bool false => "false"
  | number x => numberFormat.write x
  | string s => s
  | native _ => "<native fn>"
  | function _ closure => "<fn " ++ closure.name ++ ">"
  | classValue c => c.name
  | object _ c => c.name ++ " instance"

end Value

end Lox
