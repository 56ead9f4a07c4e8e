import Lox.Proofs.Syntax.Precedence
import Mathlib.Data.List.Forall2

namespace Lox

/-- A place in a written tree: a token that the tree holds, or any token of a kind. -/
inductive Mark where
  | exactly (token : Token)
  | anyOf (kind : Kind)

namespace Mark

def symbol (fixed : Symbol) : Mark := anyOf (.symbol fixed)

def Admits : Mark → Token → Prop
  | exactly kept, token => token = kept
  | anyOf kind, token => token.kind = kind

def spelling : Kind → String
  | .symbol fixed => fixed.spelling
  | .identifier => ""
  | .string contents => "\"" ++ contents ++ "\""
  | .number value => Token.numberFormat.write value
  | .endOfInput => ""

def token : Mark → Token
  | exactly kept => kept
  | anyOf kind => ⟨kind, spelling kind, 1⟩

theorem admits_token (mark : Mark) : mark.Admits mark.token := by
  cases mark <;> rfl

end Mark

/-- The tokens are a way to write the marks. -/
def Spelled (marks : List Mark) (ts : List Token) : Prop := List.Forall₂ Mark.Admits marks ts

namespace Spelled

theorem tokens (marks : List Mark) : Spelled marks (marks.map Mark.token) := by
  induction marks with
  | nil => exact .nil
  | cons mark marks ih => exact .cons mark.admits_token ih

theorem append {ms ns : List Mark} {ts us : List Token} (first : Spelled ms ts)
    (second : Spelled ns us) : Spelled (ms ++ ns) (ts ++ us) :=
  List.rel_append first second

theorem append_iff {ms ns : List Mark} {ts : List Token} :
    Spelled (ms ++ ns) ts ↔ ∃ us vs, ts = us ++ vs ∧ Spelled ms us ∧ Spelled ns vs := by
  constructor
  · intro h
    induction ms generalizing ts with
    | nil => exact ⟨[], ts, rfl, .nil, h⟩
    | cons mark ms ih =>
      cases h with
      | cons head tail =>
        obtain ⟨us, vs, rfl, first, second⟩ := ih tail
        exact ⟨_ :: us, vs, rfl, .cons head first, second⟩
  · rintro ⟨us, vs, rfl, first, second⟩
    exact first.append second

theorem cons_iff {mark : Mark} {ms : List Mark} {ts : List Token} :
    Spelled (mark :: ms) ts ↔ ∃ t us, mark.Admits t ∧ Spelled ms us ∧ ts = t :: us :=
  List.forall₂_cons_left_iff

theorem single {mark : Mark} {t : Token} (h : mark.Admits t) : Spelled [mark] [t] := .cons h .nil

theorem symbol {fixed : Symbol} {t : Token} (h : t.kind = .symbol fixed) :
    Spelled [Mark.symbol fixed] [t] := single h

theorem kept (t : Token) : Spelled [.exactly t] [t] := single rfl

theorem forall_marks {p : Mark → Prop} {ms : List Mark} {ts : List Token} (spelled : Spelled ms ts)
    (each : ∀ t ∈ ts, ∀ mark, mark.Admits t → p mark) : ∀ mark ∈ ms, p mark := by
  induction spelled with
  | nil => nofun
  | cons admits _ ih =>
    obtain ⟨first, others⟩ := List.forall_mem_cons.mp each
    exact List.forall_mem_cons.mpr ⟨first _ admits, ih others⟩

end Spelled

def entryMarks {α : Type} (marks : α → List Mark) : List α → List Mark
  | [] => []
  | first :: others => marks first ++ others.flatMap fun entry => .symbol .comma :: marks entry

def Literal.kind : Literal → Kind
  | number value => .number value
  | string contents => .string contents
  | bool true => .symbol .trueWord
  | bool false => .symbol .falseWord
  | nil => .symbol .nilWord

namespace Expr

/-- The tightest place at which an expression may stand without parentheses. -/
def level : Expr → Precedence
  | binary _ operator _ | logical _ operator _ =>
    (Precedence.ofOperator operator.kind).getD .assignment
  | unary .. => .unary
  | assign .. | set .. => .assignment
  | call .. | get .. => .call
  | literal .. | grouping .. | var .. | this .. | super .. => .primary

mutual

/-- Every token kept in the tree has the type that the grammar gives it, every operand is tight
enough for its place, and no argument list is too long. -/
def WellFormed : Expr → Prop
  | literal _ => True
  | grouping inner => inner.WellFormed
  | unary operator operand =>
    Parser.isOneOf [.bang, .minus] operator.kind = true ∧ .unary ≤ operand.level ∧
      operand.WellFormed
  | binary left operator right =>
    ∃ k ∈ Precedence.binaryLevels, Precedence.ofOperator operator.kind = some k ∧
      k ≤ left.level ∧ k.tighter ≤ right.level ∧ left.WellFormed ∧ right.WellFormed
  | logical left operator right =>
    ∃ k ∈ Precedence.logicalLevels, Precedence.ofOperator operator.kind = some k ∧
      k ≤ left.level ∧ k.tighter ≤ right.level ∧ left.WellFormed ∧ right.WellFormed
  | var _ name => name.kind = .identifier
  | assign _ name value => name.kind = .identifier ∧ value.WellFormed
  | call callee paren arguments =>
    .call ≤ callee.level ∧ paren.kind = .symbol .rightParen ∧
      arguments.length ≤ Parser.maxEntries ∧ callee.WellFormed ∧ AllWellFormed arguments
  | get object name => .call ≤ object.level ∧ name.kind = .identifier ∧ object.WellFormed
  | set object name value =>
    .call ≤ object.level ∧ name.kind = .identifier ∧ object.WellFormed ∧ value.WellFormed
  | this _ keyword => keyword.kind = .symbol .thisWord
  | super _ keyword method =>
    keyword.kind = .symbol .superWord ∧ method.kind = .identifier

def AllWellFormed : List Expr → Prop
  | [] => True
  | e :: rest => e.WellFormed ∧ AllWellFormed rest

end

mutual

/-- An expression in the order of the source text. -/
def marks : Expr → List Mark
  | literal value => [.anyOf value.kind]
  | grouping inner => .symbol .leftParen :: inner.marks ++ [.symbol .rightParen]
  | unary operator operand => .exactly operator :: operand.marks
  | binary left operator right | logical left operator right =>
    left.marks ++ .exactly operator :: right.marks
  | var _ name => [.exactly name]
  | assign _ name value => .exactly name :: .symbol .equal :: value.marks
  | call callee paren arguments =>
    callee.marks ++ .symbol .leftParen :: argumentMarks arguments ++ [.exactly paren]
  | get object name => object.marks ++ [.symbol .dot, .exactly name]
  | set object name value =>
    object.marks ++ .symbol .dot :: .exactly name :: .symbol .equal :: value.marks
  | this _ keyword => [.exactly keyword]
  | super _ keyword method => [.exactly keyword, .symbol .dot, .exactly method]

def argumentMarks : List Expr → List Mark
  | [] => []
  | e :: rest => e.marks ++ followingMarks rest

def followingMarks : List Expr → List Mark
  | [] => []
  | e :: rest => .symbol .comma :: e.marks ++ followingMarks rest

end

theorem allWellFormed_iff {es : List Expr} : AllWellFormed es ↔ ∀ e ∈ es, e.WellFormed := by
  induction es with
  | nil => simp [AllWellFormed]
  | cons e rest ih => simp [AllWellFormed, ih]

theorem followingMarks_eq (es : List Expr) :
    followingMarks es = es.flatMap fun e => .symbol .comma :: e.marks := by
  induction es with
  | nil => rfl
  | cons e rest ih => simp [followingMarks, ih]

theorem argumentMarks_eq (es : List Expr) : argumentMarks es = entryMarks marks es := by
  cases es with
  | nil => rfl
  | cons e rest => simp [argumentMarks, entryMarks, followingMarks_eq]

/-- An expression written out. -/
def tokens (e : Expr) : List Token := e.marks.map Mark.token

/-- The kinds of token of which a tree keeps how they were spelled: names, and the operators of
unary, binary and logical expressions. -/
def keepsSpelling : Kind → Bool
  | .identifier => true
  | kind => Parser.isOneOf
      [.bang, .minus, .plus, .slash, .star, .bangEqual, .equalEqual, .greater, .greaterEqual, .less,
        .lessEqual, .andWord, .orWord] kind

/-- The same token as far as a tree knows: of the same type, with the same contents, and spelled the
same if it is a name or an operator. -/
def Echoes (written read : Token) : Prop :=
  written.kind = read.kind ∧ (keepsSpelling read.kind = true → written.lexeme = read.lexeme)

/-- Only tokens held by the tree are names or operators. -/
def Faithful (mark : Mark) : Prop := ∀ kind, mark = .anyOf kind → keepsSpelling kind = false

theorem faithful_exactly (token : Token) : Faithful (.exactly token) := nofun

theorem faithful_anyOf {kind : Kind} (h : keepsSpelling kind = false) : Faithful (.anyOf kind) := by
  rintro _ ⟨⟩
  exact h

mutual

theorem marks_faithful : (e : Expr) → ∀ mark ∈ e.marks, Faithful mark
  | literal value => by
    refine List.forall_mem_singleton.mpr (faithful_anyOf ?_)
    rcases value with _ | _ | b | _ <;> try rfl
    cases b <;> rfl
  | grouping inner => by
    have inside := marks_faithful inner
    simpa [marks, Mark.symbol, faithful_anyOf, keepsSpelling, Parser.isOneOf, or_imp,
      forall_and] using inside
  | unary operator operand => by
    have inside := marks_faithful operand
    simpa [marks, faithful_exactly] using inside
  | binary left operator right | logical left operator right => by
    have first := marks_faithful left
    have second := marks_faithful right
    simp only [marks, List.forall_mem_append, List.forall_mem_cons]
    exact ⟨first, faithful_exactly _, second⟩
  | var _ name | this _ name => List.forall_mem_singleton.mpr (faithful_exactly name)
  | assign _ name value => by
    have inside := marks_faithful value
    simp only [marks, List.forall_mem_cons]
    exact ⟨faithful_exactly _, faithful_anyOf rfl, inside⟩
  | call callee paren arguments => by
    have first := marks_faithful callee
    have second := argumentMarks_faithful arguments
    simp only [marks, List.forall_mem_append, List.forall_mem_cons]
    exact ⟨⟨first, faithful_anyOf rfl, second⟩, faithful_exactly _, nofun⟩
  | get object name => by
    have inside := marks_faithful object
    simp only [marks, List.forall_mem_append, List.forall_mem_cons]
    exact ⟨inside, faithful_anyOf rfl, faithful_exactly _, nofun⟩
  | set object name value => by
    have first := marks_faithful object
    have second := marks_faithful value
    simp only [marks, List.forall_mem_append, List.forall_mem_cons]
    exact ⟨first, faithful_anyOf rfl, faithful_exactly _, faithful_anyOf rfl, second⟩
  | super _ keyword method => by
    simp only [marks, List.forall_mem_cons]
    exact ⟨faithful_exactly _, faithful_anyOf rfl, faithful_exactly _, nofun⟩

theorem argumentMarks_faithful : (es : List Expr) → ∀ mark ∈ argumentMarks es, Faithful mark
  | [] => nofun
  | e :: rest => by
    have first := marks_faithful e
    have others := followingMarks_faithful rest
    simp only [argumentMarks, List.forall_mem_append]
    exact ⟨first, others⟩

theorem followingMarks_faithful : (es : List Expr) → ∀ mark ∈ followingMarks es, Faithful mark
  | [] => nofun
  | e :: rest => by
    have first := marks_faithful e
    have others := followingMarks_faithful rest
    simp only [followingMarks, List.forall_mem_append, List.forall_mem_cons]
    exact ⟨⟨faithful_anyOf rfl, first⟩, others⟩

end

/-- A way to write an expression differs from the expression written out only in what the tree does
not know. -/
theorem echoes_of_spelled {marks : List Mark} {ts : List Token} (spelled : Spelled marks ts)
    (faithful : ∀ mark ∈ marks, Faithful mark) :
    List.Forall₂ Echoes (marks.map Mark.token) ts := by
  induction spelled with
  | nil => exact .nil
  | @cons mark t marks ts admits _ ih =>
    obtain ⟨head, tail⟩ := List.forall_mem_cons.mp faithful
    refine .cons ?_ (ih tail)
    cases mark with
    | exactly kept =>
      obtain rfl : t = kept := admits
      exact ⟨rfl, fun _ => rfl⟩
    | anyOf kind =>
      obtain rfl : t.kind = kind := admits
      refine ⟨rfl, fun keeps => ?_⟩
      rw [head _ rfl] at keeps
      cases keeps

mutual

def eraseIds : Expr → Expr
  | literal value => literal value
  | grouping inner => grouping inner.eraseIds
  | unary operator operand => unary operator operand.eraseIds
  | binary left operator right => binary left.eraseIds operator right.eraseIds
  | logical left operator right => logical left.eraseIds operator right.eraseIds
  | var _ name => var 0 name
  | assign _ name value => assign 0 name value.eraseIds
  | call callee paren arguments => call callee.eraseIds paren (eraseAllIds arguments)
  | get object name => get object.eraseIds name
  | set object name value => set object.eraseIds name value.eraseIds
  | this _ keyword => this 0 keyword
  | super _ keyword method => super 0 keyword method

def eraseAllIds : List Expr → List Expr
  | [] => []
  | e :: rest => e.eraseIds :: eraseAllIds rest

end

/-- The kinds of token with which an expression of level `call` or tighter begins. -/
def startsOperand : Kind → Bool
  | .identifier | .string _ | .number _ => true
  | kind => Parser.isOneOf
      [.leftParen, .trueWord, .falseWord, .nilWord, .thisWord, .superWord] kind

def startsExpression (kind : Kind) : Bool :=
  startsOperand kind || Parser.isOneOf [.bang, .minus] kind

end Expr

/-- The first token can begin an expression, and at a tight place an operand. -/
def StartsAt (l : Precedence) (ts : List Token) : Prop :=
  ∃ t us, ts = t :: us ∧ Expr.startsExpression t.kind = true ∧
    (.call ≤ l → Expr.startsOperand t.kind = true)

theorem StartsAt.operand {l : Precedence} {t : Token} {us : List Token} {kind : Kind}
    (same : t.kind = kind) (starts : Expr.startsOperand kind = true) : StartsAt l (t :: us) := by
  subst same
  exact ⟨t, us, rfl, by simp [Expr.startsExpression, starts], fun _ => starts⟩

theorem StartsAt.loose {l k : Precedence} {ts : List Token} (us : List Token) (h : StartsAt l ts)
    (loose : .call ≤ k → .call ≤ l) : StartsAt k (ts ++ us) := by
  obtain ⟨t, vs, rfl, starts, operand⟩ := h
  exact ⟨t, vs ++ us, rfl, starts, fun tight => operand (loose tight)⟩

theorem startsAt_level : (e : Expr) → e.WellFormed → ∀ {ts}, Spelled e.marks ts →
    StartsAt e.level ts
  | .literal value, _, ts, spelled => by
    obtain ⟨t, us, kind, -, rfl⟩ := Spelled.cons_iff.mp spelled
    refine .operand kind ?_
    rcases value with _ | _ | b | _ <;> try rfl
    cases b <;> rfl
  | .grouping inner, _, ts, spelled => by
    obtain ⟨t, us, kind, -, rfl⟩ := Spelled.cons_iff.mp spelled
    exact .operand kind rfl
  | .unary operator operand, wellFormed, ts, spelled => by
    obtain ⟨t, us, rfl, -, rfl⟩ := Spelled.cons_iff.mp spelled
    exact ⟨t, us, rfl, by simp [Expr.startsExpression, wellFormed.1],
      fun tight => absurd tight (show ¬ Precedence.call ≤ .unary by decide)⟩
  | .binary left operator right, wellFormed, ts, spelled => by
    obtain ⟨us, vs, rfl, first, -⟩ := Spelled.append_iff.mp spelled
    obtain ⟨k, level, known, -, -, inside, -⟩ := wellFormed
    refine (startsAt_level left inside first).loose vs fun tight => ?_
    simp only [Expr.level, known, Option.getD_some] at tight
    exact absurd tight (Precedence.not_call_le (List.mem_append_right _ level))
  | .logical left operator right, wellFormed, ts, spelled => by
    obtain ⟨us, vs, rfl, first, -⟩ := Spelled.append_iff.mp spelled
    obtain ⟨k, level, known, -, -, inside, -⟩ := wellFormed
    refine (startsAt_level left inside first).loose vs fun tight => ?_
    simp only [Expr.level, known, Option.getD_some] at tight
    exact absurd tight (Precedence.not_call_le (List.mem_append_left _ level))
  | .var _ name, wellFormed, ts, spelled => by
    obtain ⟨t, us, rfl, -, rfl⟩ := Spelled.cons_iff.mp spelled
    exact .operand wellFormed rfl
  | .assign _ name value, wellFormed, ts, spelled => by
    obtain ⟨t, us, rfl, -, rfl⟩ := Spelled.cons_iff.mp spelled
    exact .operand wellFormed.1 rfl
  | .call callee paren arguments, wellFormed, ts, spelled => by
    simp only [Expr.marks, List.append_assoc] at spelled
    obtain ⟨us, vs, rfl, first, -⟩ := Spelled.append_iff.mp spelled
    obtain ⟨level, -, -, inside, -⟩ := wellFormed
    exact (startsAt_level callee inside first).loose vs fun _ => level
  | .get object name, wellFormed, ts, spelled => by
    obtain ⟨us, vs, rfl, first, -⟩ := Spelled.append_iff.mp spelled
    obtain ⟨level, -, inside⟩ := wellFormed
    exact (startsAt_level object inside first).loose vs fun _ => level
  | .set object name value, wellFormed, ts, spelled => by
    obtain ⟨us, vs, rfl, first, -⟩ := Spelled.append_iff.mp spelled
    obtain ⟨level, -, inside, -⟩ := wellFormed
    exact (startsAt_level object inside first).loose vs fun _ => level
  | .this _ keyword, wellFormed, ts, spelled => by
    obtain ⟨t, us, rfl, -, rfl⟩ := Spelled.cons_iff.mp spelled
    exact .operand wellFormed rfl
  | .super _ keyword method, wellFormed, ts, spelled => by
    obtain ⟨t, us, rfl, -, rfl⟩ := Spelled.cons_iff.mp spelled
    exact .operand wellFormed.1 rfl

/-- The tokens spell a well-formed expression that may stand at a place for the level. -/
structure SpellsExpr (l : Precedence) (e : Expr) (ts : List Token) : Prop where
  level : l ≤ e.level
  wellFormed : e.WellFormed
  spelled : Spelled e.marks ts

theorem SpellsExpr.unary {operators : List Token} {operand : Expr} {ts : List Token}
    (each : ∀ token ∈ operators, Parser.isOneOf [.bang, .minus] token.kind = true)
    (spells : SpellsExpr .unary operand ts) :
    SpellsExpr .unary (operators.foldr .unary operand) (operators ++ ts) := by
  induction operators with
  | nil => exact spells
  | cons operator rest ih =>
    obtain ⟨first, others⟩ := List.forall_mem_cons.mp each
    obtain ⟨level, wellFormed, spelled⟩ := ih others
    exact ⟨Precedence.le_refl _, ⟨first, level, wellFormed⟩, .cons rfl spelled⟩

theorem SpellsExpr.node {k : Precedence} {left right : Expr} {operator : Token} {ts us : List Token}
    (level : k ∈ Precedence.logicalLevels ++ Precedence.binaryLevels)
    (isOperator : Parser.isOneOf k.operators operator.kind = true)
    (first : SpellsExpr k left ts) (second : SpellsExpr k.tighter right us) :
    SpellsExpr k (k.node left operator right) (ts ++ operator :: us) := by
  have known := Precedence.isOneOf_operators_iff.mp isOperator
  have spelled : Spelled (left.marks ++ .exactly operator :: right.marks) (ts ++ operator :: us) :=
    first.spelled.append (.cons rfl second.spelled)
  simp only [Precedence.logicalLevels, Precedence.binaryLevels, List.cons_append, List.nil_append,
    List.mem_cons, List.not_mem_nil, or_false] at level
  rcases level with rfl | rfl | rfl | rfl | rfl | rfl
  all_goals
    refine ⟨?_, ⟨_, ?_, known, first.level, second.level, first.wellFormed, second.wellFormed⟩,
      spelled⟩
    · simp only [Precedence.node, Expr.level, known]
      exact Precedence.le_refl _
    · decide

namespace SpellsExpr

variable {e object callee value : Expr} {ts us : List Token} {name dot equals opening paren : Token}

theorem looser {l k : Precedence} (h : SpellsExpr k e ts) (bound : l ≤ k) : SpellsExpr l e ts :=
  ⟨Precedence.le_trans bound h.level, h.wellFormed, h.spelled⟩

theorem get (h : SpellsExpr .call object ts) (isDot : dot.kind = .symbol .dot)
    (isName : name.kind = .identifier) : SpellsExpr .call (.get object name) (ts ++ [dot, name]) :=
  ⟨Precedence.le_refl _, ⟨h.level, isName, h.wellFormed⟩,
    h.spelled.append (.cons isDot (Spelled.kept name))⟩

theorem call {arguments : List Expr} (h : SpellsExpr .call callee ts)
    (opens : opening.kind = .symbol .leftParen) (closes : paren.kind = .symbol .rightParen)
    (fits : arguments.length ≤ Parser.maxEntries) (all : ∀ e ∈ arguments, e.WellFormed)
    (written : Spelled (entryMarks Expr.marks arguments) us) :
    SpellsExpr .call (.call callee paren arguments) (ts ++ opening :: us ++ [paren]) := by
  refine ⟨Precedence.le_refl _,
    ⟨h.level, closes, fits, h.wellFormed, Expr.allWellFormed_iff.mpr all⟩, ?_⟩
  have behind : Spelled (.symbol .leftParen :: entryMarks Expr.marks arguments) (opening :: us) :=
    .cons opens written
  simpa [Expr.marks, Expr.argumentMarks_eq] using
    h.spelled.append (behind.append (Spelled.kept paren))

theorem assign (h : SpellsExpr .assignment value us) (id : Nat) (isName : name.kind = .identifier)
    (isEqual : equals.kind = .symbol .equal) :
    SpellsExpr .assignment (.assign id name value) (name :: equals :: us) :=
  ⟨Precedence.le_refl _, ⟨isName, h.wellFormed⟩, .cons rfl (.cons isEqual h.spelled)⟩

theorem set (h : SpellsExpr .assignment value us) (first : SpellsExpr .call object ts)
    (isDot : dot.kind = .symbol .dot) (isName : name.kind = .identifier)
    (isEqual : equals.kind = .symbol .equal) :
    SpellsExpr .assignment (.set object name value) (ts ++ dot :: name :: equals :: us) :=
  ⟨Precedence.le_refl _, ⟨first.level, isName, first.wellFormed, h.wellFormed⟩,
    first.spelled.append (.cons isDot (.cons rfl (.cons isEqual h.spelled)))⟩

end SpellsExpr

end Lox
