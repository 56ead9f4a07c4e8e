import Lox.Parser.Expression

namespace Lox

inductive Precedence where
  | assignment | disjunction | conjunction | equality | comparison | term | factor | unary | call
  | primary
deriving DecidableEq, Repr

namespace Precedence

def rank : Precedence → Nat
  | assignment => 0
  | disjunction => 1
  | conjunction => 2
  | equality => 3
  | comparison => 4
  | term => 5
  | factor => 6
  | unary => 7
  | call => 8
  | primary => 9

/-- `l ≤ k` if what is read at level `k` may stand at a place for level `l`. -/
instance : LE Precedence := ⟨fun l k => l.rank ≤ k.rank⟩

instance (l k : Precedence) : Decidable (l ≤ k) := inferInstanceAs (Decidable (l.rank ≤ k.rank))

def tighter : Precedence → Precedence
  | assignment => disjunction
  | disjunction => conjunction
  | conjunction => equality
  | equality => comparison
  | comparison => term
  | term => factor
  | factor => unary
  | unary => call
  | call | primary => primary

/-- What may follow a first operand and make it part of a larger expression of the level. -/
def operators : Precedence → List Symbol
  | assignment => [.equal]
  | disjunction => [.orWord]
  | conjunction => [.andWord]
  | equality => [.bangEqual, .equalEqual]
  | comparison => [.greater, .greaterEqual, .less, .lessEqual]
  | term => [.minus, .plus]
  | factor => [.slash, .star]
  | call => [.leftParen, .dot]
  | unary | primary => []

def ofOperator : Kind → Option Precedence
  | .symbol .equal => some assignment
  | .symbol .orWord => some disjunction
  | .symbol .andWord => some conjunction
  | .symbol .bangEqual | .symbol .equalEqual => some equality
  | .symbol .greater | .symbol .greaterEqual | .symbol .less | .symbol .lessEqual => some comparison
  | .symbol .minus | .symbol .plus => some term
  | .symbol .slash | .symbol .star => some factor
  | .symbol .leftParen | .symbol .dot => some call
  | _ => none

def logicalLevels : List Precedence := [disjunction, conjunction]

def binaryLevels : List Precedence := [equality, comparison, term, factor]

def node : Precedence → Expr → Token → Expr → Expr
  | disjunction | conjunction => .logical
  | _ => .binary

def rule (nested : Parser Expr) : Precedence → Parser Expr
  | assignment => Parser.assignment nested
  | disjunction => Parser.disjunction nested
  | conjunction => Parser.conjunction nested
  | equality => Parser.equality nested
  | comparison => Parser.comparison nested
  | term => Parser.term nested
  | factor => Parser.factor nested
  | unary => Parser.unary nested
  | call => Parser.call nested
  | primary => Parser.primary nested

variable {l k : Precedence}

theorem le_refl (l : Precedence) : l ≤ l := Nat.le_refl _

theorem le_trans {m : Precedence} (first : l ≤ k) (second : k ≤ m) : l ≤ m :=
  Nat.le_trans first second

theorem assignment_le (l : Precedence) : assignment ≤ l := Nat.zero_le _

theorem le_tighter (l : Precedence) : l ≤ l.tighter := by
  cases l <;> decide

theorem le_of_tighter_le (h : l.tighter ≤ k) : l ≤ k := le_trans (le_tighter l) h

theorem not_tighter_le (h : l ≠ primary) : ¬ l.tighter ≤ l := by
  revert h
  cases l <;> decide

theorem eq_or_tighter_le (h : l ≤ k) : l = k ∨ l.tighter ≤ k ∧ l.rank < l.tighter.rank := by
  revert h
  cases l <;> cases k <;> decide

theorem le_induction {motive : Precedence → Prop} (base : motive k)
    (step : ∀ l, l.tighter ≤ k → motive l.tighter → motive l) (h : l ≤ k) : motive l := by
  induction gap : k.rank - l.rank using Nat.strongRecOn generalizing l with
  | ind n ih =>
    rcases eq_or_tighter_le h with rfl | ⟨further, progress⟩
    · exact base
    · refine step l further (ih _ ?_ further rfl)
      have bound : l.tighter.rank ≤ k.rank := further
      omega

theorem isOneOf_operators_iff {kind : Kind} :
    Parser.isOneOf l.operators kind = true ↔ ofOperator kind = some l := by
  constructor
  · intro h
    cases l <;> simp [operators, Parser.isOneOf] at h <;> grind [ofOperator]
  · intro h
    unfold ofOperator at h
    split at h <;> cases h <;> rfl

theorem rule_of_mem_levels {nested : Parser Expr} (h : l ∈ logicalLevels ++ binaryLevels) :
    l.rule nested = Parser.leftAssociative l.node l.operators (l.tighter.rule nested) := by
  simp only [logicalLevels, binaryLevels, List.cons_append, List.nil_append, List.mem_cons,
    List.not_mem_nil, or_false] at h
  rcases h with rfl | rfl | rfl | rfl | rfl | rfl <;> rfl

theorem not_call_le {k : Precedence} (h : k ∈ logicalLevels ++ binaryLevels) :
    ¬ call ≤ k := by
  revert h
  cases k <;> decide

end Precedence

end Lox
