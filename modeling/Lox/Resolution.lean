import Std.Data.TreeMap.Basic
import Lox.Syntax
import Lox.Table

namespace Lox

/-- Distances by the id of the occurrence. A name without an entry is global. -/
abbrev Locals := Std.TreeMap Nat Nat

def Locals.merge (locals additions : Locals) : Locals :=
  additions.foldl (fun merged id distance => merged.insert id distance) locals

def Locals.ofList (entries : List (Nat × Nat)) : Locals :=
  entries.foldl (fun locals entry => locals.insert entry.1 entry.2) ∅

namespace ResolveError

inductive Cause where
  | alreadyDeclared
  | ownInitializer
  | topLevelReturn
  | initializerReturn
  | inheritsItself
  | thisOutsideClass
  | superOutsideClass
  | superWithoutSuperclass
deriving DecidableEq, Repr

def Cause.message : Cause → String
  | alreadyDeclared => "Already a variable with this name in this scope."
  | ownInitializer => "Can't read local variable in its own initializer."
  | topLevelReturn => "Can't return from top-level code."
  | initializerReturn => "Can't return a value from an initializer."
  | inheritsItself => "A class can't inherit from itself."
  | thisOutsideClass => "Can't use 'this' outside of a class."
  | superOutsideClass => "Can't use 'super' outside of a class."
  | superWithoutSuperclass => "Can't use 'super' in a class with no superclass."

end ResolveError

structure ResolveError where
  cause : ResolveError.Cause
  token : Token
deriving DecidableEq, Repr

inductive EnclosingFunction where
  | none
  | function
  | method
  | initializer
deriving DecidableEq, Repr

inductive EnclosingClass where
  | none
  | plain
  | subclass
deriving DecidableEq, Repr

def EnclosingFunction.ofMethod (name : Token) : EnclosingFunction :=
  if name.lexeme = initializerName then .initializer else .method

/-- The scopes around a place, innermost first, each with the names declared so far and whether
their initializers are behind; and what has been found out. -/
structure Resolution where
  scopes : List (Table Bool)
  locals : Locals
  errors : List ResolveError

namespace Resolution

def empty : Resolution := ⟨[], ∅, []⟩

def report (r : Resolution) (cause : ResolveError.Cause) (token : Token) : Resolution :=
  { r with errors := r.errors ++ [⟨cause, token⟩] }

def reportIf (r : Resolution) (violated : Bool) (cause : ResolveError.Cause) (token : Token) :
    Resolution :=
  if violated then r.report cause token else r

def enter (r : Resolution) : Resolution := { r with scopes := .empty :: r.scopes }

def leave (r : Resolution) : Resolution := { r with scopes := r.scopes.tail }

def mark (r : Resolution) (name : String) (ready : Bool) : Resolution :=
  match r.scopes with
  | [] => r
  | scope :: outer => { r with scopes := scope.insert name ready :: outer }

def isDeclared (r : Resolution) (name : String) : Bool :=
  match r.scopes with
  | [] => false
  | scope :: _ => scope.contains name

/-- A second declaration in one scope is an error and leaves the first as it is. -/
def declare (r : Resolution) (name : Token) : Resolution :=
  if r.isDeclared name.lexeme then r.report .alreadyDeclared name else r.mark name.lexeme false

def define (r : Resolution) (name : String) : Resolution := r.mark name true

def declareAndDefine (r : Resolution) (name : Token) : Resolution :=
  (r.declare name).define name.lexeme

def isPending (r : Resolution) (name : String) : Bool :=
  match r.scopes with
  | [] => false
  | scope :: _ => scope.get? name == some false

def distance? (r : Resolution) (name : String) : Option Nat :=
  r.scopes.findIdx? fun scope => scope.contains name

def occurrence (r : Resolution) (id : Nat) (name : Token) : Resolution :=
  match r.distance? name.lexeme with
  | some distance => { r with locals := r.locals.insert id distance }
  | none => r

end Resolution

namespace Expr

def resolveThis (enclosing : EnclosingClass) (id : Nat) (keyword : Token) (r : Resolution) :
    Resolution :=
  match enclosing with
  | .none => r.report .thisOutsideClass keyword
  | _ => r.occurrence id keyword

def resolveSuper (enclosing : EnclosingClass) (id : Nat) (keyword : Token) (r : Resolution) :
    Resolution :=
  match enclosing with
  | .none => r.report .superOutsideClass keyword
  | .plain => r.report .superWithoutSuperclass keyword
  | .subclass => r.occurrence id keyword

mutual

def resolve (enclosing : EnclosingClass) : Expr → Resolution → Resolution
  | literal _, r => r
  | grouping inner, r => resolve enclosing inner r
  | unary _ operand, r => resolve enclosing operand r
  | binary left _ right, r => resolve enclosing right (resolve enclosing left r)
  | logical left _ right, r => resolve enclosing right (resolve enclosing left r)
  | var id name, r => (r.reportIf (r.isPending name.lexeme) .ownInitializer name).occurrence id name
  | assign id name value, r => (resolve enclosing value r).occurrence id name
  | call callee _ arguments, r => resolveList enclosing arguments (resolve enclosing callee r)
  | get object _, r => resolve enclosing object r
  | set object _ value, r => resolve enclosing object (resolve enclosing value r)
  | this id keyword, r => resolveThis enclosing id keyword r
  | super id keyword _, r => resolveSuper enclosing id keyword r

def resolveList (enclosing : EnclosingClass) : List Expr → Resolution → Resolution
  | [], r => r
  | e :: rest, r => resolveList enclosing rest (resolve enclosing e r)

end

def resolveOption (enclosing : EnclosingClass) : Option Expr → Resolution → Resolution
  | none, r => r
  | some e, r => e.resolve enclosing r

end Expr

namespace Stmt

def inheritsItself (name : Token) : Expr → Bool
  | .var _ superclass => superclass.lexeme == name.lexeme
  | _ => false

/-- The token blamed when a class names itself as its superclass. -/
def superclassName (name : Token) : Expr → Token
  | .var _ superclass => superclass
  | _ => name

def enterClass (name : Token) (superclass : Option Expr) (r : Resolution) : Resolution :=
  match superclass with
  | none => r.enter.define "this"
  | some e =>
    let r := r.reportIf (inheritsItself name e) .inheritsItself (superclassName name e)
    ((e.resolve .subclass r).enter.define "super").enter.define "this"

def leaveClass (superclass : Option Expr) (r : Resolution) : Resolution :=
  match superclass with
  | none => r.leave
  | some _ => r.leave.leave

def enclosedBy (superclass : Option Expr) : EnclosingClass :=
  if superclass.isSome then .subclass else .plain

mutual

def resolveFunction (enclosing : EnclosingClass) (kind : EnclosingFunction) :
    FunctionDecl → Resolution → Resolution
  | ⟨_, params, body⟩, r =>
    (resolveList enclosing kind body (params.foldl Resolution.declareAndDefine r.enter)).leave

def resolveMethods (enclosing : EnclosingClass) : List FunctionDecl → Resolution → Resolution
  | [], r => r
  | method :: rest, r =>
    resolveMethods enclosing rest
      (resolveFunction enclosing (.ofMethod method.name) method r)

def resolve (enclosing : EnclosingClass) (kind : EnclosingFunction) :
    Stmt → Resolution → Resolution
  | expression value, r => value.resolve enclosing r
  | print value, r => value.resolve enclosing r
  | var name initializer, r =>
    (Expr.resolveOption enclosing initializer (r.declare name)).define name.lexeme
  | block statements, r => (resolveList enclosing kind statements r.enter).leave
  | branch condition thenBranch none, r =>
    resolve enclosing kind thenBranch (condition.resolve enclosing r)
  | branch condition thenBranch (some elseBranch), r =>
    resolve enclosing kind elseBranch
      (resolve enclosing kind thenBranch (condition.resolve enclosing r))
  | loop condition body, r => resolve enclosing kind body (condition.resolve enclosing r)
  | function declaration, r =>
    resolveFunction enclosing .function declaration (r.declareAndDefine declaration.name)
  | ret keyword value, r =>
    let r := r.reportIf (kind == .none) .topLevelReturn keyword
    let r := r.reportIf (value.isSome && kind == .initializer) .initializerReturn keyword
    Expr.resolveOption enclosing value r
  | classDecl name superclass methods, r =>
    leaveClass superclass
      (resolveMethods (enclosedBy superclass) methods
        (enterClass name superclass (r.declareAndDefine name)))

def resolveList (enclosing : EnclosingClass) (kind : EnclosingFunction) :
    List Stmt → Resolution → Resolution
  | [], r => r
  | statement :: rest, r => resolveList enclosing kind rest (resolve enclosing kind statement r)

end

end Stmt

def resolve (program : List Stmt) : Resolution :=
  Stmt.resolveList .none .none program .empty

end Lox
