import Lox.Proofs.Syntax.Written

namespace Lox

def optionMarks (before : List Mark) : Option Expr → List Mark
  | none => []
  | some e => before ++ e.marks

def conditionMarks (word : Symbol) (condition : Expr) : List Mark :=
  .symbol word :: .symbol .leftParen :: condition.marks ++ [.symbol .rightParen]

def functionHeader (name : Token) (params : List Token) : List Mark :=
  .exactly name :: .symbol .leftParen :: entryMarks (fun param => [.exactly param]) params ++
    [.symbol .rightParen, .symbol .leftBrace]

def classHeader (name : Token) (superclass : Option Expr) : List Mark :=
  .symbol .classWord :: .exactly name :: optionMarks [.symbol .less] superclass ++
    [.symbol .leftBrace]

namespace Stmt

mutual

def functionMarks : FunctionDecl → List Mark
  | ⟨name, params, body⟩ => functionHeader name params ++ allMarks body ++ [.symbol .rightBrace]

def methodMarks : List FunctionDecl → List Mark
  | [] => []
  | method :: rest => functionMarks method ++ methodMarks rest

/-- A statement in the order of the source text. -/
def marks : Stmt → List Mark
  | expression value => value.marks ++ [.symbol .semicolon]
  | print value => .symbol .printWord :: value.marks ++ [.symbol .semicolon]
  | var name initializer =>
    .symbol .varWord :: .exactly name :: optionMarks [.symbol .equal] initializer ++
      [.symbol .semicolon]
  | block statements => .symbol .leftBrace :: allMarks statements ++ [.symbol .rightBrace]
  | branch condition thenBranch none => conditionMarks .ifWord condition ++ thenBranch.marks
  | branch condition thenBranch (some elseBranch) =>
    conditionMarks .ifWord condition ++ thenBranch.marks ++ .symbol .elseWord :: elseBranch.marks
  | loop condition body => conditionMarks .whileWord condition ++ body.marks
  | function declaration => .symbol .funWord :: functionMarks declaration
  | ret keyword value => .exactly keyword :: optionMarks [] value ++ [.symbol .semicolon]
  | classDecl name superclass methods =>
    classHeader name superclass ++ methodMarks methods ++ [.symbol .rightBrace]

def allMarks : List Stmt → List Mark
  | [] => []
  | statement :: rest => statement.marks ++ allMarks rest

end

def tokens (program : List Stmt) : List Token := (allMarks program).map Mark.token

def isStatement : Stmt → Bool
  | var .. | function .. | classDecl .. => false
  | _ => true

/-- Whether a statement ends in a branch without alternative, which would take one that follows. -/
def endsOpen : Stmt → Bool
  | branch _ _ none => true
  | branch _ _ (some elseBranch) => elseBranch.endsOpen
  | loop _ body => body.endsOpen
  | _ => false

def IsSuperclass : Expr → Prop
  | .var _ name => name.kind = .identifier
  | _ => False

mutual

def FunctionWellFormed : FunctionDecl → Prop
  | ⟨name, params, body⟩ =>
    name.kind = .identifier ∧ params.length ≤ Parser.maxEntries ∧
      (∀ param ∈ params, param.kind = .identifier) ∧ AllWellFormed body

def MethodsWellFormed : List FunctionDecl → Prop
  | [] => True
  | method :: rest => FunctionWellFormed method ∧ MethodsWellFormed rest

/-- Every token kept in the tree has the type that the grammar gives it, branches and bodies of
loops are no declarations, and an alternative belongs to the innermost branch it may belong to. -/
def WellFormed : Stmt → Prop
  | expression value => value.WellFormed
  | print value => value.WellFormed
  | var name initializer => name.kind = .identifier ∧ ∀ e ∈ initializer, e.WellFormed
  | block statements => AllWellFormed statements
  | branch condition thenBranch none =>
    condition.WellFormed ∧ thenBranch.isStatement = true ∧ thenBranch.WellFormed
  | branch condition thenBranch (some elseBranch) =>
    condition.WellFormed ∧ thenBranch.isStatement = true ∧ thenBranch.WellFormed ∧
      thenBranch.endsOpen = false ∧ elseBranch.isStatement = true ∧ elseBranch.WellFormed
  | loop condition body => condition.WellFormed ∧ body.isStatement = true ∧ body.WellFormed
  | function declaration => FunctionWellFormed declaration
  | ret keyword value => keyword.kind = .symbol .returnWord ∧ ∀ e ∈ value, e.WellFormed
  | classDecl name superclass methods =>
    name.kind = .identifier ∧ (∀ e ∈ superclass, IsSuperclass e) ∧ MethodsWellFormed methods

def AllWellFormed : List Stmt → Prop
  | [] => True
  | statement :: rest => statement.WellFormed ∧ AllWellFormed rest

end

mutual

def eraseFunctionIds : FunctionDecl → FunctionDecl
  | ⟨name, params, body⟩ => ⟨name, params, eraseAllIds body⟩

def eraseMethodIds : List FunctionDecl → List FunctionDecl
  | [] => []
  | method :: rest => eraseFunctionIds method :: eraseMethodIds rest

def eraseIds : Stmt → Stmt
  | expression value => expression value.eraseIds
  | print value => print value.eraseIds
  | var name initializer => var name (initializer.map Expr.eraseIds)
  | block statements => block (eraseAllIds statements)
  | branch condition thenBranch none => branch condition.eraseIds thenBranch.eraseIds none
  | branch condition thenBranch (some elseBranch) =>
    branch condition.eraseIds thenBranch.eraseIds (some elseBranch.eraseIds)
  | loop condition body => loop condition.eraseIds body.eraseIds
  | function declaration => function (eraseFunctionIds declaration)
  | ret keyword value => ret keyword (value.map Expr.eraseIds)
  | classDecl name superclass methods =>
    classDecl name (superclass.map Expr.eraseIds) (eraseMethodIds methods)

def eraseAllIds : List Stmt → List Stmt
  | [] => []
  | statement :: rest => statement.eraseIds :: eraseAllIds rest

end

/-- What may stand first in the header of a loop. -/
def IsInitializer : Stmt → Prop
  | var .. | expression _ => True
  | _ => False

end Stmt

end Lox
