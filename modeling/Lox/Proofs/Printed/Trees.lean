import Lox.Proofs.Printed.Bracketed
import Lox.Proofs.Syntax.Lawful
import Lox.Proofs.Syntax.Names
import Lox.Proofs.Scanning.Lexeme

namespace Lox

open Bracketed (round curly)

def Bracketed.ofString (text : String) : Bracketed := .word text.toList

open Bracketed (ofString)

namespace Expr

variable (number : Float → String)

mutual

def bracketed : Expr → Bracketed
  | literal value => ofString (value.text number)
  | grouping inner => round [ofString "group", inner.bracketed]
  | unary operator operand => round [ofString operator.lexeme, operand.bracketed]
  | binary left operator right | logical left operator right =>
    round [ofString operator.lexeme, left.bracketed, right.bracketed]
  | var _ name => ofString name.lexeme
  | assign _ name value => round [ofString "=", ofString name.lexeme, value.bracketed]
  | call callee _ arguments => round (ofString "call" :: callee.bracketed :: allBracketed arguments)
  | get object name => round [ofString ".", object.bracketed, ofString name.lexeme]
  | set object name value =>
    round [ofString "=", round [ofString ".", object.bracketed, ofString name.lexeme],
      value.bracketed]
  | this _ _ => ofString "this"
  | super _ _ method => round [ofString "super", ofString method.lexeme]

def allBracketed : List Expr → List Bracketed
  | [] => []
  | e :: rest => e.bracketed :: allBracketed rest

end

def optionBracketed (e : Option Expr) : List Bracketed := (e.map (bracketed number)).toList

end Expr

def paramsBracketed (params : List Token) : Bracketed :=
  round (params.map fun param => ofString param.lexeme)

namespace Stmt

variable (number : Float → String)

mutual

def functionBracketed : FunctionDecl → List Bracketed
  | ⟨name, params, body⟩ =>
    [ofString name.lexeme, paramsBracketed params, curly (allBracketed body)]

def methodsBracketed : List FunctionDecl → List Bracketed
  | [] => []
  | method :: rest => functionBracketed method ++ methodsBracketed rest

def bracketed : Stmt → Bracketed
  | expression value => round [ofString ";", value.bracketed number]
  | print value => round [ofString "print", value.bracketed number]
  | var name initializer =>
    round (ofString "var" :: ofString name.lexeme :: Expr.optionBracketed number initializer)
  | block statements => curly (allBracketed statements)
  | branch condition thenBranch none =>
    round [ofString "if", condition.bracketed number, thenBranch.bracketed]
  | branch condition thenBranch (some elseBranch) =>
    round [ofString "if", condition.bracketed number, thenBranch.bracketed, elseBranch.bracketed]
  | loop condition body => round [ofString "while", condition.bracketed number, body.bracketed]
  | function declaration => round (ofString "fun" :: functionBracketed declaration)
  | ret _ value => round (ofString "return" :: Expr.optionBracketed number value)
  | classDecl name none methods =>
    round (ofString "class" :: ofString name.lexeme :: methodsBracketed methods)
  | classDecl name (some superclass) methods =>
    round (ofString "class" :: ofString name.lexeme :: ofString "<" ::
      superclass.bracketed number :: methodsBracketed methods)

def allBracketed : List Stmt → List Bracketed
  | [] => []
  | statement :: rest => statement.bracketed :: allBracketed rest

end

end Stmt

@[simp] theorem write_ofString (text : String) : (ofString text).write = text.toList := by
  rw [ofString, Bracketed.write]

@[simp] theorem writeEach_nil : Bracketed.writeEach [] = [] := by rw [Bracketed.writeEach]

@[simp] theorem writeEach_cons (part : Bracketed) (rest : List Bracketed) :
    Bracketed.writeEach (part :: rest) = ' ' :: part.write ++ Bracketed.writeEach rest := by
  rw [Bracketed.writeEach]

theorem writeEach_append (parts rest : List Bracketed) :
    Bracketed.writeEach (parts ++ rest) =
      Bracketed.writeEach parts ++ Bracketed.writeEach rest := by
  induction parts with
  | nil => simp
  | cons part parts ih => simp [ih]

def WrittenAs (words : List String) (parts : List Bracketed) : Prop :=
  (words.flatMap fun word => ' ' :: word.toList) = Bracketed.writeEach parts

namespace WrittenAs

variable {word : String} {words : List String} {part : Bracketed} {parts : List Bracketed}

theorem nil : WrittenAs [] [] := by simp [WrittenAs]

theorem cons (first : word.toList = part.write) (others : WrittenAs words parts) :
    WrittenAs (word :: words) (part :: parts) := by
  rw [WrittenAs, List.flatMap_cons, first, others, writeEach_cons]

theorem parenthesised {head : String} (others : WrittenAs words parts) :
    (parenthesised (head :: words)).toList = (round (ofString head :: parts)).write := by
  have spaced (word : String) : (" ".intercalate (word :: words)).toList =
      word.toList ++ words.flatMap fun word => ' ' :: word.toList := by
    clear others
    induction words generalizing word with
    | nil => simp
    | cons next words ih =>
      rw [String.intercalate_cons_cons, String.toList_append, ih, List.flatMap_cons]
      simp
  rw [Lox.parenthesised, String.toList_append, String.toList_append, spaced, others,
    Bracketed.write, write_ofString]
  simp

theorem braced (statements : WrittenAs words parts) :
    (braced words).toList = (curly parts).write := by
  rw [WrittenAs] at statements
  simp [Lox.braced, List.flatMap_map, Bracketed.write, statements]

end WrittenAs

namespace Expr

variable (number : Float → String)

mutual

theorem toList_text : (e : Expr) → (e.text number).toList = (e.bracketed number).write
  | literal _ => (write_ofString _).symm
  | var _ _ => (write_ofString _).symm
  | this _ _ => (write_ofString _).symm
  | grouping inner => WrittenAs.parenthesised (.cons (toList_text inner) .nil)
  | unary _ operand => WrittenAs.parenthesised (.cons (toList_text operand) .nil)
  | binary left _ right | logical left _ right =>
    WrittenAs.parenthesised (.cons (toList_text left) (.cons (toList_text right) .nil))
  | assign _ _ value =>
    WrittenAs.parenthesised (.cons (write_ofString _).symm (.cons (toList_text value) .nil))
  | call callee _ arguments =>
    WrittenAs.parenthesised (.cons (toList_text callee) (writtenAs_texts arguments))
  | get object _ =>
    WrittenAs.parenthesised (.cons (toList_text object) (.cons (write_ofString _).symm .nil))
  | set object _ value =>
    WrittenAs.parenthesised (.cons
      (WrittenAs.parenthesised (.cons (toList_text object) (.cons (write_ofString _).symm .nil)))
      (.cons (toList_text value) .nil))
  | super _ _ _ => WrittenAs.parenthesised (.cons (write_ofString _).symm .nil)

theorem writtenAs_texts : (es : List Expr) → WrittenAs (texts number es) (allBracketed number es)
  | [] => .nil
  | e :: rest => .cons (toList_text e) (writtenAs_texts rest)

end

end Expr

theorem toList_paramsText (params : List Token) :
    (paramsText params).toList = (paramsBracketed params).write := by
  cases params with
  | nil => decide
  | cons param params =>
    refine WrittenAs.parenthesised ?_
    induction params with
    | nil => exact .nil
    | cons param params ih => exact .cons (write_ofString _).symm ih

namespace Stmt

variable (number : Float → String)

mutual

theorem toList_functionText : (d : FunctionDecl) →
    ' ' :: (functionText number d).toList = Bracketed.writeEach (functionBracketed number d)
  | ⟨name, params, body⟩ => by
    have inside := (writtenAs_texts body).braced
    simp [functionText, functionBracketed, toList_paramsText, inside]

theorem writtenAs_functionTexts : (ds : List FunctionDecl) →
    WrittenAs (functionTexts number ds) (methodsBracketed number ds)
  | [] => .nil
  | d :: rest => by
    have others := writtenAs_functionTexts rest
    rw [WrittenAs] at others ⊢
    rw [functionTexts, methodsBracketed, List.flatMap_cons, others, toList_functionText d,
      writeEach_append]

theorem toList_text : (s : Stmt) → (s.text number).toList = (s.bracketed number).write
  | expression value => WrittenAs.parenthesised (.cons (value.toList_text number) .nil)
  | print value => WrittenAs.parenthesised (.cons (value.toList_text number) .nil)
  | var name none => WrittenAs.parenthesised (.cons (write_ofString _).symm .nil)
  | var name (some initializer) =>
    WrittenAs.parenthesised
      (.cons (write_ofString _).symm (.cons (initializer.toList_text number) .nil))
  | block statements => (writtenAs_texts statements).braced
  | branch condition thenBranch none =>
    WrittenAs.parenthesised
      (.cons (condition.toList_text number) (.cons (toList_text thenBranch) .nil))
  | branch condition thenBranch (some elseBranch) =>
    WrittenAs.parenthesised (.cons (condition.toList_text number)
      (.cons (toList_text thenBranch) (.cons (toList_text elseBranch) .nil)))
  | loop condition body =>
    WrittenAs.parenthesised (.cons (condition.toList_text number) (.cons (toList_text body) .nil))
  | function declaration => WrittenAs.parenthesised (by
      rw [WrittenAs, List.flatMap_cons, toList_functionText declaration]
      simp)
  | ret _ none => WrittenAs.parenthesised .nil
  | ret _ (some value) => WrittenAs.parenthesised (.cons (value.toList_text number) .nil)
  | classDecl name none methods =>
    WrittenAs.parenthesised (.cons (write_ofString _).symm (writtenAs_functionTexts methods))
  | classDecl name (some superclass) methods =>
    WrittenAs.parenthesised (.cons (write_ofString _).symm (.cons (write_ofString _).symm
      (.cons (superclass.toList_text number) (writtenAs_functionTexts methods))))

theorem writtenAs_texts : (ss : List Stmt) → WrittenAs (texts number ss) (allBracketed number ss)
  | [] => .nil
  | s :: rest => .cons (toList_text s) (writtenAs_texts rest)

end

end Stmt

end Lox
