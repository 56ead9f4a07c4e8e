import Lox.Json
import Lox.Syntax

namespace Lox

def Kind.toJson : Kind → Json
  | .string contents => .object [("STRING", .string contents)]
  | .number value => .object [("NUMBER", .number value)]
  | kind => .string kind.name

def Token.toJson (token : Token) : Json :=
  .object [("token_type", token.kind.toJson), ("lexeme", .string token.lexeme),
    ("line", .natural token.line)]

def Literal.toJson : Literal → Json
  | .number value => .object [("Number", .number value)]
  | .string contents => .object [("Str", .string contents)]
  | .bool true => .string "True"
  | .bool false => .string "False"
  | .nil => .string "Nil"

def Json.tagged (tag : String) (members : List (String × Json)) : Json :=
  .object [(tag, .object members)]

namespace Expr

mutual

def toJson : Expr → Json
  | literal value => .object [("Literal", value.toJson)]
  | grouping inner => .object [("Grouping", toJson inner)]
  | unary operator operand =>
    .tagged "Unary" [("operator", operator.toJson), ("right", toJson operand)]
  | binary left operator right =>
    .tagged "Binary" [("left", toJson left), ("operator", operator.toJson), ("right", toJson right)]
  | logical left operator right =>
    .tagged "Logical" [("left", toJson left), ("operator", operator.toJson), ("right", toJson right)]
  | var id name => .tagged "Variable" [("id", .natural id), ("name", name.toJson)]
  | assign id name value =>
    .tagged "Assign" [("id", .natural id), ("name", name.toJson), ("value", toJson value)]
  | call callee paren arguments =>
    .tagged "Call" [("callee", toJson callee), ("paren", paren.toJson),
      ("arguments", .array (listToJson arguments))]
  | get object name => .tagged "Get" [("object", toJson object), ("name", name.toJson)]
  | set object name value =>
    .tagged "Set" [("object", toJson object), ("name", name.toJson), ("value", toJson value)]
  | this id keyword => .tagged "This" [("id", .natural id), ("keyword", keyword.toJson)]
  | super id keyword method =>
    .tagged "Super" [("id", .natural id), ("keyword", keyword.toJson), ("method", method.toJson)]

def listToJson : List Expr → List Json
  | [] => []
  | e :: rest => toJson e :: listToJson rest

end

def optionToJson : Option Expr → Json
  | none => .null
  | some e => e.toJson

end Expr

namespace Stmt

mutual

def functionToJson : FunctionDecl → Json
  | ⟨name, params, body⟩ =>
    .object [("name", name.toJson), ("params", .array (params.map Token.toJson)),
      ("body", .array (listToJson body))]

def functionsToJson : List FunctionDecl → List Json
  | [] => []
  | declaration :: rest => functionToJson declaration :: functionsToJson rest

def toJson : Stmt → Json
  | expression value => .object [("Expression", value.toJson)]
  | print value => .object [("Print", value.toJson)]
  | var name initializer =>
    .tagged "Var" [("name", name.toJson), ("initializer", Expr.optionToJson initializer)]
  | block statements => .object [("Block", .array (listToJson statements))]
  | branch condition thenBranch none =>
    .tagged "If" [("condition", condition.toJson), ("then_branch", toJson thenBranch),
      ("else_branch", .null)]
  | branch condition thenBranch (some elseBranch) =>
    .tagged "If" [("condition", condition.toJson), ("then_branch", toJson thenBranch),
      ("else_branch", toJson elseBranch)]
  | loop condition body =>
    .tagged "While" [("condition", condition.toJson), ("body", toJson body)]
  | function declaration => .object [("Function", functionToJson declaration)]
  | ret keyword value =>
    .tagged "Return" [("keyword", keyword.toJson), ("value", Expr.optionToJson value)]
  | classDecl name superclass methods =>
    .tagged "Class" [("name", name.toJson), ("superclass", Expr.optionToJson superclass),
      ("methods", .array (functionsToJson methods))]

def listToJson : List Stmt → List Json
  | [] => []
  | statement :: rest => toJson statement :: listToJson rest

end

end Stmt

end Lox
