import Lox.Decimal.Shortest
import Lox.Number

namespace Lox

inductive Json where
  | null
  | bool (value : Bool)
  | natural (value : Nat)
  | number (value : Float)
  | string (value : String)
  | array (elements : List Json)
  | object (members : List (String × Json))
deriving Repr

namespace Json

/-- The shortest digits with a point or an exponent; the exponent appears outside
`1e-5 ≤ x < 1e16`, and what is not finite is null. -/
def numberText (x : Float) : String :=
  if x.isNaN || x.isInf then "null"
  else
    let digits := Decimal.shortest .toEven (Binary.ofFloat x)
    let magnitude :=
      if digits.magnitude < -5 || 16 ≤ digits.magnitude then digits.scientific
      else if 0 ≤ digits.exponent then digits.positional ++ ".0"
      else digits.positional
    NumberFormat.sign x ++ magnitude

def hexDigits (n : Nat) : List Char := [Nat.digitChar (n / 16), Nat.digitChar (n % 16)]

def escape : Char → List Char
  | '"' => ['\\', '"']
  | '\\' => ['\\', '\\']
  | '\x08' => ['\\', 'b']
  | '\x0c' => ['\\', 'f']
  | '\n' => ['\\', 'n']
  | '\r' => ['\\', 'r']
  | '\t' => ['\\', 't']
  | c => if c.toNat < 32 then ['\\', 'u', '0', '0'] ++ hexDigits c.toNat else [c]

def quote (text : String) : String :=
  String.ofList ('"' :: text.toList.flatMap escape ++ ['"'])

def scalarText : Json → String
  | null => "null"
  | bool true => "true"
  | bool false => "false"
  | natural n => toString n
  | number x => numberText x
  | string text => quote text
  | array _ => "[]"
  | object _ => "\x7b\x7d"

mutual

def compact : Json → String
  | array elements => "[" ++ ",".intercalate (compactElements elements) ++ "]"
  | object members => "\x7b" ++ ",".intercalate (compactMembers members) ++ "\x7d"
  | scalar => scalarText scalar

def compactElements : List Json → List String
  | [] => []
  | element :: rest => compact element :: compactElements rest

def compactMembers : List (String × Json) → List String
  | [] => []
  | (key, value) :: rest => (quote key ++ ":" ++ compact value) :: compactMembers rest

end

def newline (depth : Nat) : String := String.ofList ('\n' :: List.replicate (2 * depth) ' ')

def lines (opening closing : String) (depth : Nat) : List String → String
  | [] => opening ++ closing
  | entries =>
    opening ++ newline (depth + 1) ++ ("," ++ newline (depth + 1)).intercalate entries ++
      newline depth ++ closing

mutual

def indented (depth : Nat) : Json → String
  | array elements => lines "[" "]" depth (indentedElements (depth + 1) elements)
  | object members => lines "\x7b" "\x7d" depth (indentedMembers (depth + 1) members)
  | scalar => scalarText scalar

def indentedElements (depth : Nat) : List Json → List String
  | [] => []
  | element :: rest => indented depth element :: indentedElements depth rest

def indentedMembers (depth : Nat) : List (String × Json) → List String
  | [] => []
  | (key, value) :: rest => (quote key ++ ": " ++ indented depth value) :: indentedMembers depth rest

end

def pretty (document : Json) : String := indented 0 document

end Json

end Lox
