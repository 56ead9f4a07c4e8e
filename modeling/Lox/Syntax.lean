import Lox.Token

namespace Lox

inductive Literal where
  | number (value : Float)
  | string (contents : String)
  | bool (value : Bool)
  | nil
deriving DecidableEq, Repr

inductive Expr where
  | literal (value : Literal)
  | grouping (inner : Expr)
  | unary (operator : Token) (operand : Expr)
  | binary (left : Expr) (operator : Token) (right : Expr)
  | logical (left : Expr) (operator : Token) (right : Expr)
  | var (id : Nat) (name : Token)
  | assign (id : Nat) (name : Token) (value : Expr)
  | call (callee : Expr) (paren : Token) (arguments : List Expr)
  | get (object : Expr) (name : Token)
  | set (object : Expr) (name : Token) (value : Expr)
  | this (id : Nat) (keyword : Token)
  | super (id : Nat) (keyword : Token) (method : Token)

mutual

structure FunctionDecl where
  name : Token
  params : List Token
  body : List Stmt

inductive Stmt where
  | expression (value : Expr)
  | print (value : Expr)
  | var (name : Token) (initializer : Option Expr)
  | block (statements : List Stmt)
  | branch (condition : Expr) (thenBranch : Stmt) (elseBranch : Option Stmt)
  | loop (condition : Expr) (body : Stmt)
  | function (declaration : FunctionDecl)
  | ret (keyword : Token) (value : Option Expr)
  | classDecl (name : Token) (superclass : Option Expr) (methods : List FunctionDecl)

end

def initializerName : String := "init"

namespace Stmt

/-- A loop with a header: the increment runs after each round of the body, and what the header
declares lives in a block around the loop. -/
def forLoop (initializer : Option Stmt) (condition increment : Option Expr) (body : Stmt) : Stmt :=
  let round := match increment with
    | some step => block [body, expression step]
    | none => body
  let rounds := loop (condition.getD (.literal (.bool true))) round
  match initializer with
  | some first => block [first, rounds]
  | none => rounds

end Stmt

end Lox
