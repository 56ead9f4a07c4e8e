import Lox.Token
import Lox.Token.CodeUnit

namespace Lox

namespace LexError

inductive Cause where
  | unexpectedCharacter (character : Char)
  | unterminatedString
deriving DecidableEq, Repr

def Cause.message : Cause → String
  | .unexpectedCharacter character => "Unexpected character: " ++ character.toString
  | .unterminatedString => "Unterminated string."

end LexError

structure LexError where
  cause : LexError.Cause
  line : Nat
deriving DecidableEq, Repr

abbrev Item := Except LexError Token

namespace Scan

open CodeUnit

variable {σ : Type} [CodeUnit σ]

def isDigit (unit : σ) : Bool := (glyph unit).isDigit

def startsWord (unit : σ) : Bool := (glyph unit).isAlpha || glyph unit == '_'

def continuesWord (unit : σ) : Bool := (glyph unit).isAlphanum || glyph unit == '_'

def countNewlines (units : List σ) : Nat := units.countP fun unit => glyph unit == '\n'

def split (p : σ → Bool) (units : List σ) : List σ × List σ := (units.takeWhile p, units.dropWhile p)

/-- Digits, and a fraction if a digit follows the point. -/
def splitNumber (units : List σ) : List σ × List σ :=
  let whole := split isDigit units
  match whole.2 with
  | point :: digit :: rest =>
    if glyph point == '.' && isDigit digit then
      let fraction := split isDigit rest
      (whole.1 ++ point :: digit :: fraction.1, fraction.2)
    else whole
  | _ => whole

def digitValue (digit : Char) : Nat := digit.toNat - '0'.toNat

/-- The double nearest to a numeral of digits with at most one point. -/
def numberValue (numeral : List Char) : Float :=
  let whole := numeral.takeWhile Char.isDigit
  let fraction := (numeral.dropWhile Char.isDigit).drop 1
  let digits := (whole ++ fraction).foldl (fun value digit => 10 * value + digitValue digit) 0
  Float.ofScientific digits true fraction.length

/-- What reading from one place gives: nothing for blanks and comments, else an item. -/
structure Step (σ : Type) where
  item : Option Item
  line : Nat
  rest : List σ

def token (kind : Kind) (units : List σ) (line : Nat) (rest : List σ) : Step σ :=
  ⟨some (.ok ⟨kind, text units, line⟩), line, rest⟩

def failure (cause : LexError.Cause) (line : Nat) (rest : List σ) : Step σ :=
  ⟨some (.error ⟨cause, line⟩), line, rest⟩

def symbol (symbol : Symbol) (line : Nat) (unit : σ) (rest : List σ) : Step σ :=
  token (.symbol symbol) [unit] line rest

/-- An operator that an equals sign extends. -/
def operator (alone extended : Symbol) (line : Nat) (unit : σ) : List σ → Step σ
  | next :: rest =>
    if glyph next == '=' then token (.symbol extended) [unit, next] line rest
    else symbol alone line unit (next :: rest)
  | [] => symbol alone line unit []

/-- A comment reaches up to its newline, which is left in place. -/
def slash (line : Nat) (unit : σ) : List σ → Step σ
  | next :: rest =>
    if glyph next == '/' then ⟨none, line, rest.dropWhile fun unit => glyph unit != '\n'⟩
    else symbol .slash line unit (next :: rest)
  | [] => symbol .slash line unit []

/-- A string may span lines; its token stands on the line of the closing quote. -/
def string (line : Nat) (unit : σ) (rest : List σ) : Step σ :=
  let parts := split (fun unit => glyph unit != '"') rest
  let last := line + countNewlines parts.1
  match parts.2 with
  | [] => failure .unterminatedString last []
  | quote :: rest => token (.string (text parts.1)) (unit :: parts.1 ++ [quote]) last rest

def number (line : Nat) (unit : σ) (rest : List σ) : Step σ :=
  let parts := splitNumber (unit :: rest)
  token (.number (numberValue (parts.1.map glyph))) parts.1 line parts.2

def word (line : Nat) (unit : σ) (rest : List σ) : Step σ :=
  let parts := split continuesWord rest
  let units := unit :: parts.1
  let kind := match Symbol.word? (text units) with
    | some word => Kind.symbol word
    | none => .identifier
  token kind units line parts.2

def unexpected (line : Nat) (unit : σ) (rest : List σ) : Step σ :=
  let character := (text (unit :: rest.take (tail unit))).toList.headD '\uFFFD'
  failure (.unexpectedCharacter character) line (rest.drop (tail unit))

def step (line : Nat) (unit : σ) (rest : List σ) : Step σ :=
  match glyph unit with
  | '(' => symbol .leftParen line unit rest
  | ')' => symbol .rightParen line unit rest
  | '\x7b' => symbol .leftBrace line unit rest
  | '\x7d' => symbol .rightBrace line unit rest
  | ',' => symbol .comma line unit rest
  | '.' => symbol .dot line unit rest
  | '-' => symbol .minus line unit rest
  | '+' => symbol .plus line unit rest
  | ';' => symbol .semicolon line unit rest
  | '*' => symbol .star line unit rest
  | '!' => operator .bang .bangEqual line unit rest
  | '=' => operator .equal .equalEqual line unit rest
  | '<' => operator .less .lessEqual line unit rest
  | '>' => operator .greater .greaterEqual line unit rest
  | ' ' | '\r' | '\t' => ⟨none, line, rest⟩
  | '\n' => ⟨none, line + 1, rest⟩
  | '/' => slash line unit rest
  | '"' => string line unit rest
  | _ =>
    if isDigit unit then number line unit rest
    else if startsWord unit then word line unit rest
    else unexpected line unit rest

omit [CodeUnit σ] in
theorem length_dropWhile_le (p : σ → Bool) (units : List σ) :
    (units.dropWhile p).length ≤ units.length :=
  (List.dropWhile_sublist p).length_le

theorem length_operator_rest (alone extended : Symbol) (line : Nat) (unit : σ) (rest : List σ) :
    (operator alone extended line unit rest).rest.length ≤ rest.length := by
  cases rest with
  | nil => simp [operator, symbol, token]
  | cons next rest =>
    simp only [operator]
    split <;> simp [symbol, token]

theorem length_slash_rest (line : Nat) (unit : σ) (rest : List σ) :
    (slash line unit rest).rest.length ≤ rest.length := by
  cases rest with
  | nil => simp [slash, symbol, token]
  | cons next rest =>
    simp only [slash]
    split
    · exact Nat.le_succ_of_le (length_dropWhile_le _ rest)
    · simp [symbol, token]

theorem length_string_rest (line : Nat) (unit : σ) (rest : List σ) :
    (string line unit rest).rest.length ≤ rest.length := by
  have bound := length_dropWhile_le (fun unit => glyph unit != '"') rest
  simp only [string, split]
  split
  · simp [failure]
  · rename_i quote after parts
    rw [parts] at bound
    simp only [token]
    exact Nat.le_of_succ_le bound

theorem length_number_rest (line : Nat) (unit : σ) (rest : List σ) (digit : isDigit unit = true) :
    (number line unit rest).rest.length ≤ rest.length := by
  have bound := length_dropWhile_le isDigit rest
  simp only [number, token, splitNumber, split, List.dropWhile_cons, digit, if_true]
  split
  · rename_i point next after parts
    rw [parts] at bound
    split
    · have further := length_dropWhile_le isDigit after
      simp only [List.length_cons] at bound
      simp only
      omega
    · simp only [parts]
      exact bound
  · exact bound

theorem length_step_rest (line : Nat) (unit : σ) (rest : List σ) :
    (step line unit rest).rest.length ≤ rest.length := by
  unfold step
  split
  all_goals first
    | exact Nat.le_refl _
    | exact length_operator_rest ..
    | exact length_slash_rest ..
    | exact length_string_rest ..
    | skip
  split
  · rename_i digit
    exact length_number_rest line unit rest digit
  split
  · exact length_dropWhile_le _ rest
  · simp [unexpected, failure]

def items (line : Nat) : List σ → List Item
  | [] => [.ok ⟨.endOfInput, "", line⟩]
  | unit :: rest =>
    let next := step line unit rest
    have := length_step_rest line unit rest
    next.item.toList ++ items next.line next.rest
termination_by units => units.length
decreasing_by
  simp only [List.length_cons]
  omega

end Scan

def scan (source : String) : List Item := Scan.items 1 source.toList

def scanBytes (source : ByteArray) : List Item := Scan.items 1 source.data.toList

def tokensOf (items : List Item) : List Token := items.filterMap Except.toOption

def lexErrorsOf (items : List Item) : List LexError :=
  items.filterMap fun item => match item with
    | .error error => some error
    | .ok _ => none

end Lox
