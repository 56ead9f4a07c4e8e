import Lox.Number

namespace Lox

/-- The kinds of token with a single spelling: marks, operators and reserved words. -/
inductive Symbol where
  | leftParen | rightParen | leftBrace | rightBrace | comma | dot | minus | plus | semicolon
  | slash | star | bang | bangEqual | equal | equalEqual | greater | greaterEqual | less | lessEqual
  | andWord | classWord | elseWord | falseWord | funWord | forWord | ifWord | nilWord | orWord
  | printWord | returnWord | superWord | thisWord | trueWord | varWord | whileWord
deriving DecidableEq, Repr

namespace Symbol

def marks : List Symbol :=
  [leftParen, rightParen, leftBrace, rightBrace, comma, dot, minus, plus, semicolon, slash, star,
    bang, bangEqual, equal, equalEqual, greater, greaterEqual, less, lessEqual]

def words : List Symbol :=
  [andWord, classWord, elseWord, falseWord, funWord, forWord, ifWord, nilWord, orWord, printWord,
    returnWord, superWord, thisWord, trueWord, varWord, whileWord]

def all : List Symbol := marks ++ words

def spelling : Symbol → String
  | leftParen => "("
  | rightParen => ")"
  | leftBrace => "\x7b"
  | rightBrace => "\x7d"
  | comma => ","
  | dot => "."
  | minus => "-"
  | plus => "+"
  | semicolon => ";"
  | slash => "/"
  | star => "*"
  | bang => "!"
  | bangEqual => "!="
  | equal => "="
  | equalEqual => "=="
  | greater => ">"
  | greaterEqual => ">="
  | less => "<"
  | lessEqual => "<="
  | andWord => "and"
  | classWord => "class"
  | elseWord => "else"
  | falseWord => "false"
  | funWord => "fun"
  | forWord => "for"
  | ifWord => "if"
  | nilWord => "nil"
  | orWord => "or"
  | printWord => "print"
  | returnWord => "return"
  | superWord => "super"
  | thisWord => "this"
  | trueWord => "true"
  | varWord => "var"
  | whileWord => "while"

def name : Symbol → String
  | leftParen => "LEFT_PAREN"
  | rightParen => "RIGHT_PAREN"
  | leftBrace => "LEFT_BRACE"
  | rightBrace => "RIGHT_BRACE"
  | comma => "COMMA"
  | dot => "DOT"
  | minus => "MINUS"
  | plus => "PLUS"
  | semicolon => "SEMICOLON"
  | slash => "SLASH"
  | star => "STAR"
  | bang => "BANG"
  | bangEqual => "BANG_EQUAL"
  | equal => "EQUAL"
  | equalEqual => "EQUAL_EQUAL"
  | greater => "GREATER"
  | greaterEqual => "GREATER_EQUAL"
  | less => "LESS"
  | lessEqual => "LESS_EQUAL"
  | word => word.spelling.map Char.toUpper

def word? (spelling : String) : Option Symbol := words.find? fun word => word.spelling == spelling

theorem mem_all (symbol : Symbol) : symbol ∈ all := by
  cases symbol <;> decide

end Symbol

inductive Kind where
  | symbol (fixed : Symbol)
  | identifier
  | string (contents : String)
  | number (value : Float)
  | endOfInput
deriving DecidableEq, Repr

def Kind.name : Kind → String
  | .symbol fixed => fixed.name
  | .identifier => "IDENTIFIER"
  | .string _ => "STRING"
  | .number _ => "NUMBER"
  | .endOfInput => "EOF"

structure Token where
  kind : Kind
  lexeme : String
  line : Nat
deriving DecidableEq, Repr

namespace Token

/-- Whole numbers of less than 64 bits keep a fraction, larger ones do not, and zero has no sign. -/
def numberFormat : NumberFormat :=
  { infinity := "inf", wholeEnd := ".0", wholeBound := some (Nat.pow 2 63), signedZero := false }

def payload : Kind → String
  | .string contents => contents
  | .number value => numberFormat.write value
  | _ => "null"

def describe (token : Token) : String :=
  token.kind.name ++ " " ++ token.lexeme ++ " " ++ payload token.kind

def place (token : Token) : String :=
  match token.kind with
  | .endOfInput => " at end"
  | _ => " at '" ++ token.lexeme ++ "'"

end Token

end Lox
