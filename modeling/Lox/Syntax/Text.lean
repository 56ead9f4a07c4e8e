import Lox.Syntax

namespace Lox

def Literal.text (number : Float → String) : Literal → String
  | .number value => number value
  | .string contents => contents
  | .bool true => "true"
  | .bool false => "false"
  | .nil => "nil"

def parenthesised (words : List String) : String := "(" ++ " ".intercalate words ++ ")"

def braced (statements : List String) : String := "\x7b" ++ String.join (statements.map (" " ++ ·)) ++ " \x7d"

namespace Expr

mutual

def text (number : Float → String) : Expr → String
  | literal value => value.text number
  | grouping inner => parenthesised ["group", text number inner]
  | unary operator operand => parenthesised [operator.lexeme, text number operand]
  | binary left operator right =>
    parenthesised [operator.lexeme, text number left, text number right]
  | logical left operator right =>
    parenthesised [operator.lexeme, text number left, text number right]
  | var _ name => name.lexeme
  | assign _ name value => parenthesised ["=", name.lexeme, text number value]
  | call callee _ arguments => parenthesised ("call" :: text number callee :: texts number arguments)
  | get object name => parenthesised [".", text number object, name.lexeme]
  | set object name value =>
    parenthesised ["=", parenthesised [".", text number object, name.lexeme], text number value]
  | this _ _ => "this"
  | super _ _ method => parenthesised ["super", method.lexeme]

def texts (number : Float → String) : List Expr → List String
  | [] => []
  | e :: rest => text number e :: texts number rest

end

end Expr

def paramsText (params : List Token) : String := parenthesised (params.map Token.lexeme)

namespace Stmt

mutual

def functionText (number : Float → String) : FunctionDecl → String
  | ⟨name, params, body⟩ =>
    name.lexeme ++ " " ++ paramsText params ++ " " ++ braced (texts number body)

def functionTexts (number : Float → String) : List FunctionDecl → List String
  | [] => []
  | declaration :: rest => functionText number declaration :: functionTexts number rest

def text (number : Float → String) : Stmt → String
  | expression value => parenthesised [";", value.text number]
  | print value => parenthesised ["print", value.text number]
  | var name none => parenthesised ["var", name.lexeme]
  | var name (some initializer) => parenthesised ["var", name.lexeme, initializer.text number]
  | block statements => braced (texts number statements)
  | branch condition thenBranch none =>
    parenthesised ["if", condition.text number, text number thenBranch]
  | branch condition thenBranch (some elseBranch) =>
    parenthesised ["if", condition.text number, text number thenBranch, text number elseBranch]
  | loop condition body => parenthesised ["while", condition.text number, text number body]
  | function declaration => parenthesised ["fun", functionText number declaration]
  | ret _ none => parenthesised ["return"]
  | ret _ (some value) => parenthesised ["return", value.text number]
  | classDecl name none methods =>
    parenthesised ("class" :: name.lexeme :: functionTexts number methods)
  | classDecl name (some superclass) methods =>
    parenthesised
      ("class" :: name.lexeme :: "<" :: superclass.text number :: functionTexts number methods)

def texts (number : Float → String) : List Stmt → List String
  | [] => []
  | statement :: rest => text number statement :: texts number rest

end

end Stmt

/-- In trees every whole number keeps all its digits and a fraction. -/
def treeNumberFormat : NumberFormat :=
  { infinity := "inf", wholeEnd := ".0", wholeBound := none, signedZero := true }

def Expr.display (e : Expr) : String := e.text treeNumberFormat.write

def Stmt.display (statement : Stmt) : String := statement.text treeNumberFormat.write

end Lox
