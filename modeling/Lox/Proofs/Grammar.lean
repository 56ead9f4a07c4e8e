import Lox.Parser

namespace Lox.Grammar

inductive Terminal where
  | symbol (fixed : Symbol)
  | identifier
  | string
  | number
  | endOfInput
deriving DecidableEq, Repr

/-- The contents of a string and the value of a number do not matter to the grammar. -/
def Terminal.ofKind : Kind → Terminal
  | .symbol fixed => .symbol fixed
  | .identifier => .identifier
  | .string _ => .string
  | .number _ => .number
  | .endOfInput => .endOfInput

inductive Rule where
  | program | declaration | classDecl | funDecl | function | parameters | varDecl
  | statement | exprStmt | forStmt | ifStmt | printStmt | returnStmt | whileStmt | block
  | expression | assignment | logicOr | logicAnd | equality | comparison | term | factor
  | unary | call | arguments | primary
deriving DecidableEq, Repr

inductive Phrase where
  | empty
  | terminal (expected : Terminal)
  | rule (name : Rule)
  | seq (first second : Phrase)
  | either (left right : Phrase)
  | optional (body : Phrase)
  | many (body : Phrase)
  | upTo (bound : Nat) (body : Phrase)
deriving Repr

namespace Phrase

def mark (symbol : Symbol) : Phrase := terminal (.symbol symbol)

def name : Phrase := terminal .identifier

def inOrder : List Phrase → Phrase
  | [] => empty
  | [phrase] => phrase
  | phrase :: rest => seq phrase (inOrder rest)

def oneOf : List Phrase → Phrase
  | [] => empty
  | [phrase] => phrase
  | phrase :: rest => either phrase (oneOf rest)

def operands (operand : Rule) (operators : List Symbol) : Phrase :=
  inOrder [rule operand, many (inOrder [oneOf (operators.map mark), rule operand])]

def entries (entry : Phrase) : Phrase :=
  inOrder [entry, upTo (Parser.maxEntries - 1) (inOrder [mark .comma, entry])]

end Phrase

open Phrase in
def Rule.body : Rule → Phrase
  | program => inOrder [many (rule declaration), terminal .endOfInput]
  | declaration => oneOf [rule classDecl, rule funDecl, rule varDecl, rule statement]
  | classDecl =>
    inOrder [mark .classWord, name, optional (inOrder [mark .less, name]), mark .leftBrace,
      many (rule function), mark .rightBrace]
  | funDecl => inOrder [mark .funWord, rule function]
  | function =>
    inOrder [name, mark .leftParen, optional (rule parameters), mark .rightParen, rule block]
  | parameters => entries name
  | varDecl =>
    inOrder [mark .varWord, name, optional (inOrder [mark .equal, rule expression]),
      mark .semicolon]
  | statement =>
    oneOf [rule exprStmt, rule forStmt, rule ifStmt, rule printStmt, rule returnStmt,
      rule whileStmt, rule block]
  | exprStmt => inOrder [rule expression, mark .semicolon]
  | forStmt =>
    inOrder [mark .forWord, mark .leftParen,
      oneOf [rule varDecl, rule exprStmt, mark .semicolon],
      optional (rule expression), mark .semicolon,
      optional (rule expression), mark .rightParen, rule statement]
  | ifStmt =>
    inOrder [mark .ifWord, mark .leftParen, rule expression, mark .rightParen, rule statement,
      optional (inOrder [mark .elseWord, rule statement])]
  | printStmt => inOrder [mark .printWord, rule expression, mark .semicolon]
  | returnStmt => inOrder [mark .returnWord, optional (rule expression), mark .semicolon]
  | whileStmt =>
    inOrder [mark .whileWord, mark .leftParen, rule expression, mark .rightParen, rule statement]
  | block => inOrder [mark .leftBrace, many (rule declaration), mark .rightBrace]
  | expression => rule assignment
  | assignment =>
    oneOf [
      inOrder [optional (inOrder [rule call, mark .dot]), name, mark .equal, rule assignment],
      rule logicOr]
  | logicOr => operands logicAnd [.orWord]
  | logicAnd => operands equality [.andWord]
  | equality => operands comparison [.bangEqual, .equalEqual]
  | comparison => operands term [.greater, .greaterEqual, .less, .lessEqual]
  | term => operands factor [.minus, .plus]
  | factor => operands unary [.slash, .star]
  | unary => oneOf [inOrder [oneOf [mark .bang, mark .minus], rule unary], rule call]
  | call =>
    inOrder [rule primary,
      many (oneOf [
        inOrder [mark .leftParen, optional (rule arguments), mark .rightParen],
        inOrder [mark .dot, name]])]
  | arguments => entries (rule expression)
  | primary =>
    oneOf [terminal .number, terminal .string, mark .trueWord, mark .falseWord, mark .nilWord,
      mark .thisWord, name, inOrder [mark .leftParen, rule expression, mark .rightParen],
      inOrder [mark .superWord, mark .dot, name]]

inductive Derives : Phrase → List Token → Prop where
  | empty : Derives .empty []
  | terminal (token : Token) : Derives (.terminal (.ofKind token.kind)) [token]
  | rule {name : Rule} {ts : List Token} : Derives name.body ts → Derives (.rule name) ts
  | seq {p q : Phrase} {ts us : List Token} :
    Derives p ts → Derives q us → Derives (.seq p q) (ts ++ us)
  | left {p q : Phrase} {ts : List Token} : Derives p ts → Derives (.either p q) ts
  | right {p q : Phrase} {ts : List Token} : Derives q ts → Derives (.either p q) ts
  | absent {p : Phrase} : Derives (.optional p) []
  | present {p : Phrase} {ts : List Token} : Derives p ts → Derives (.optional p) ts
  | stop {p : Phrase} : Derives (.many p) []
  | again {p : Phrase} {ts us : List Token} :
    Derives p ts → Derives (.many p) us → Derives (.many p) (ts ++ us)
  | stopEarly {p : Phrase} {bound : Nat} : Derives (.upTo bound p) []
  | againUpTo {p : Phrase} {bound : Nat} {ts us : List Token} :
    Derives p ts → Derives (.upTo bound p) us → Derives (.upTo (bound + 1) p) (ts ++ us)

/-- What a phrase derives when the rules derive what `derives` says. -/
def Phrase.Holds (derives : Rule → List Token → Prop) : Phrase → List Token → Prop
  | .empty, ts => ts = []
  | .terminal expected, ts => ∃ token, ts = [token] ∧ Terminal.ofKind token.kind = expected
  | .rule name, ts => derives name ts
  | .seq p q, ts => ∃ us vs, ts = us ++ vs ∧ p.Holds derives us ∧ q.Holds derives vs
  | .either p q, ts => p.Holds derives ts ∨ q.Holds derives ts
  | .optional p, ts => ts = [] ∨ p.Holds derives ts
  | .many p, ts =>
    ∃ parts : List (List Token), ts = parts.flatten ∧ ∀ part ∈ parts, p.Holds derives part
  | .upTo bound p, ts =>
    ∃ parts : List (List Token), ts = parts.flatten ∧ parts.length ≤ bound ∧
      ∀ part ∈ parts, p.Holds derives part

/-- Rule induction: a property of token lists that every rule passes on from the phrases in its body
holds of everything derived. -/
theorem Derives.holds {derives : Rule → List Token → Prop}
    (closed : ∀ name ts, name.body.Holds derives ts → derives name ts)
    {p : Phrase} {ts : List Token} (h : Derives p ts) : p.Holds derives ts := by
  induction h with
  | empty => rfl
  | terminal token => exact ⟨token, rfl, rfl⟩
  | rule _ ih => exact closed _ _ ih
  | seq _ _ ihp ihq => exact ⟨_, _, rfl, ihp, ihq⟩
  | left _ ih => exact .inl ih
  | right _ ih => exact .inr ih
  | absent => exact .inl rfl
  | present _ ih => exact .inr ih
  | stop => exact ⟨[], rfl, by simp⟩
  | again _ _ ihp ihq =>
    obtain ⟨parts, rfl, each⟩ := ihq
    exact ⟨_ :: parts, rfl, List.forall_mem_cons.mpr ⟨ihp, each⟩⟩
  | stopEarly => exact ⟨[], rfl, Nat.zero_le _, by simp⟩
  | againUpTo _ _ ihp ihq =>
    obtain ⟨parts, rfl, bound, each⟩ := ihq
    exact ⟨_ :: parts, rfl, Nat.succ_le_succ bound, List.forall_mem_cons.mpr ⟨ihp, each⟩⟩

end Lox.Grammar
