import Lox.Proofs.Grammar
import Lox.Proofs.Syntax.Spells

namespace Lox

open Grammar

def Precedence.grammarRule : Precedence → Rule
  | assignment => .assignment
  | disjunction => .logicOr
  | conjunction => .logicAnd
  | equality => .equality
  | comparison => .comparison
  | term => .term
  | factor => .factor
  | unary => .unary
  | call => .call
  | primary => .primary

namespace Grammar

variable {p : Phrase} {ts us vs : List Token} {t : Token}

theorem derives_mark {symbol : Symbol} (h : t.kind = .symbol symbol) :
    Derives (.mark symbol) [t] := by
  have derives := Derives.terminal t
  rwa [h] at derives

theorem derives_name (h : t.kind = .identifier) : Derives .name [t] := by
  have derives := Derives.terminal t
  rwa [h] at derives

theorem derives_oneOf {ps : List Phrase} (member : p ∈ ps) (h : Derives p ts) :
    Derives (.oneOf ps) ts := by
  induction ps with
  | nil => cases member
  | cons q rest ih =>
    cases rest with
    | nil =>
      cases List.mem_singleton.mp member
      exact h
    | cons _ _ =>
      rcases List.mem_cons.mp member with rfl | later
      · exact .left h
      · exact .right (ih later)

theorem Derives.alone {q : Phrase} (h : Derives p ts) : Derives (.seq p (.many q)) ts := by
  simpa using h.seq (.stop (p := q))

theorem Derives.snoc (h : Derives (.many p) ts) (last : Derives p us) :
    Derives (.many p) (ts ++ us) := by
  generalize whole : Phrase.many p = q at h
  induction h with
  | stop =>
    cases whole
    simpa using Derives.again last .stop
  | again first _ _ ih =>
    cases whole
    rw [List.append_assoc]
    exact .again first (ih rfl)
  | _ => cases whole

theorem derives_entries {α : Type} {marks : α → List Mark} {entry : Phrase} {as : List α}
    (nonempty : as ≠ []) (fits : as.length ≤ Parser.maxEntries)
    (each : ∀ a ∈ as, ∀ ts, Spelled (marks a) ts → Derives entry ts)
    (spelled : Spelled (entryMarks marks as) ts) : Derives (.entries entry) ts := by
  have following : ∀ (bs : List α), (∀ b ∈ bs, b ∈ as) → ∀ {us},
      Spelled (bs.flatMap fun b => .symbol .comma :: marks b) us → ∀ bound, bs.length ≤ bound →
      Derives (.upTo bound (.inOrder [.mark .comma, entry])) us := by
    intro bs members
    induction bs with
    | nil =>
      intro us spelled bound _
      cases spelled
      exact .stopEarly
    | cons b bs ih =>
      intro us spelled bound enough
      obtain ⟨member, others⟩ := List.forall_mem_cons.mp members
      obtain ⟨vs, ws, rfl, first, second⟩ := Spelled.append_iff.mp spelled
      obtain ⟨comma, xs, isComma, inside, rfl⟩ := Spelled.cons_iff.mp first
      obtain ⟨smaller, rfl⟩ := Nat.exists_eq_add_one.mpr (Nat.lt_of_lt_of_le (Nat.succ_pos _) enough)
      exact .againUpTo (.seq (derives_mark isComma) (each b member xs inside))
        (ih others second smaller (Nat.le_of_succ_le_succ enough))
  cases as with
  | nil => exact (nonempty rfl).elim
  | cons a as =>
    obtain ⟨us, vs, rfl, first, second⟩ := Spelled.append_iff.mp spelled
    exact .seq (each a List.mem_cons_self us first)
      (following as (fun b => List.mem_cons_of_mem a) second _ (Nat.le_sub_one_of_lt fits))

theorem derives_looser (l : Precedence) (h : Derives (.rule l.tighter.grammarRule) ts) :
    Derives (.rule l.grammarRule) ts := by
  cases l with
  | assignment | unary => exact .rule (.right h)
  | primary => exact h
  | disjunction | conjunction | equality | comparison | term | factor | call =>
    exact .rule h.alone

theorem derives_looser_than {l k : Precedence} (bound : l ≤ k)
    (h : Derives (.rule k.grammarRule) ts) : Derives (.rule l.grammarRule) ts :=
  Precedence.le_induction (motive := fun l => Derives (.rule l.grammarRule) ts) h
    (fun l _ => derives_looser l) bound

theorem derives_loosest {k : Precedence} (h : Derives (.rule k.grammarRule) ts) :
    Derives (.rule .assignment) ts :=
  derives_looser_than k.assignment_le h

theorem body_of_mem_levels {k : Precedence}
    (level : k ∈ Precedence.logicalLevels ++ Precedence.binaryLevels) :
    k.grammarRule.body = .operands k.tighter.grammarRule k.operators := by
  simp only [Precedence.logicalLevels, Precedence.binaryLevels, List.cons_append, List.nil_append,
    List.mem_cons, List.not_mem_nil, or_false] at level
  rcases level with rfl | rfl | rfl | rfl | rfl | rfl <;> rfl

theorem derives_node {k : Precedence}
    (level : k ∈ Precedence.logicalLevels ++ Precedence.binaryLevels)
    (isOperator : Parser.isOneOf k.operators t.kind = true) (first : Derives (.rule k.grammarRule) us)
    (second : Derives (.rule k.tighter.grammarRule) vs) :
    Derives (.rule k.grammarRule) (us ++ t :: vs) := by
  obtain ⟨symbol, member, kind⟩ : ∃ symbol ∈ k.operators, t.kind = .symbol symbol := by
    simpa [Parser.isOneOf] using isOperator
  have operator : Derives (.oneOf (k.operators.map .mark)) [t] :=
    derives_oneOf (List.mem_map_of_mem member) (derives_mark kind)
  cases first with
  | rule body =>
    rw [body_of_mem_levels level] at body
    obtain _ | _ | _ | ⟨operand, others⟩ := body
    refine .rule ?_
    rw [body_of_mem_levels level, List.append_assoc]
    exact .seq operand (others.snoc (.seq operator second))

theorem derives_call_snoc (first : Derives (.rule .call) us)
    (last : Derives (.oneOf [
      .inOrder [.mark .leftParen, .optional (.rule .arguments), .mark .rightParen],
      .inOrder [.mark .dot, .name]]) vs) : Derives (.rule .call) (us ++ vs) := by
  cases first with
  | rule body =>
    obtain _ | _ | _ | ⟨operand, others⟩ := body
    rw [List.append_assoc]
    exact .rule (.seq operand (others.snoc last))

theorem derives_assignment {os : List Token} {name equals : Token}
    (object : Derives (.optional (.inOrder [.rule .call, .mark .dot])) os)
    (isName : name.kind = .identifier) (isEqual : equals.kind = .symbol .equal)
    (value : Derives (.rule .assignment) vs) :
    Derives (.rule .assignment) (os ++ name :: equals :: vs) :=
  .rule (.left (.seq object (.seq (derives_name isName) (.seq (derives_mark isEqual) value))))

theorem derives_primary (member : p ∈ [Phrase.terminal .number, .terminal .string, .mark .trueWord,
      .mark .falseWord, .mark .nilWord, .mark .thisWord, .name,
      .inOrder [.mark .leftParen, .rule .expression, .mark .rightParen],
      .inOrder [.mark .superWord, .mark .dot, .name]]) (h : Derives p ts) :
    Derives (.rule .primary) ts :=
  .rule (derives_oneOf member h)

mutual

theorem derives_expr : (e : Expr) → e.WellFormed → ∀ ts, Spelled e.marks ts →
    Derives (.rule e.level.grammarRule) ts
  | .literal value, _, ts, spelled => by
    obtain ⟨t, _, kind, empty, rfl⟩ := Spelled.cons_iff.mp spelled
    cases empty
    have kind : t.kind = value.kind := kind
    have derives := Derives.terminal t
    rw [kind] at derives
    rcases value with _ | _ | b | _
    case bool =>
      cases b
      · exact derives_primary (by simp [Phrase.mark, Terminal.ofKind, Literal.kind]) derives
      · exact derives_primary (by simp [Phrase.mark, Terminal.ofKind, Literal.kind]) derives
    all_goals exact derives_primary (by simp [Phrase.mark, Terminal.ofKind, Literal.kind]) derives
  | .grouping inner, wellFormed, ts, spelled => by
    obtain ⟨opening, us, isOpening, behind, rfl⟩ := Spelled.cons_iff.mp spelled
    obtain ⟨vs, _, rfl, inside, last⟩ := Spelled.append_iff.mp behind
    obtain ⟨closing, _, isClosing, empty, rfl⟩ := Spelled.cons_iff.mp last
    cases empty
    have nested := derives_loosest
      (derives_expr inner wellFormed vs inside)
    exact derives_primary (p := .inOrder [.mark .leftParen, .rule .expression, .mark .rightParen])
      (by simp) (.seq (derives_mark isOpening) (.seq (.rule nested) (derives_mark isClosing)))
  | .unary operator operand, ⟨isOperator, level, wellFormed⟩, ts, spelled => by
    obtain ⟨operator', us, same, inside, rfl⟩ := Spelled.cons_iff.mp spelled
    obtain rfl : operator' = operator := same
    have nested := derives_looser_than level (derives_expr operand wellFormed us inside)
    have sign : Derives (.oneOf [.mark .bang, .mark .minus]) [operator'] := by
      have kind : operator'.kind = .symbol .bang ∨ operator'.kind = .symbol .minus := by
        simpa [Parser.isOneOf] using isOperator
      rcases kind with kind | kind
      · exact .left (derives_mark kind)
      · exact .right (derives_mark kind)
    exact .rule (.left (.seq sign nested))
  | .binary left operator right, ⟨k, level, known, leftLevel, rightLevel, insideLeft, insideRight⟩,
      ts, spelled => by
    obtain ⟨us, _, rfl, first, behind⟩ := Spelled.append_iff.mp spelled
    obtain ⟨_, vs, rfl, second, rfl⟩ := Spelled.cons_iff.mp behind
    simp only [Expr.level, known, Option.getD_some]
    exact derives_node (List.mem_append_right _ level) (Precedence.isOneOf_operators_iff.mpr known)
      (derives_looser_than leftLevel (derives_expr left insideLeft us first))
      (derives_looser_than rightLevel (derives_expr right insideRight vs second))
  | .logical left operator right, ⟨k, level, known, leftLevel, rightLevel, insideLeft, insideRight⟩,
      ts, spelled => by
    obtain ⟨us, _, rfl, first, behind⟩ := Spelled.append_iff.mp spelled
    obtain ⟨_, vs, rfl, second, rfl⟩ := Spelled.cons_iff.mp behind
    simp only [Expr.level, known, Option.getD_some]
    exact derives_node (List.mem_append_left _ level) (Precedence.isOneOf_operators_iff.mpr known)
      (derives_looser_than leftLevel (derives_expr left insideLeft us first))
      (derives_looser_than rightLevel (derives_expr right insideRight vs second))
  | .var _ name, isName, ts, spelled => by
    obtain ⟨_, _, rfl, empty, rfl⟩ := Spelled.cons_iff.mp spelled
    cases empty
    exact derives_primary (p := .name) (by simp) (derives_name isName)
  | .assign _ name value, ⟨isName, wellFormed⟩, ts, spelled => by
    obtain ⟨_, _, rfl, behind, rfl⟩ := Spelled.cons_iff.mp spelled
    obtain ⟨equals, us, isEqual, inside, rfl⟩ := Spelled.cons_iff.mp behind
    have nested := derives_loosest
      (derives_expr value wellFormed us inside)
    exact derives_assignment .absent isName isEqual nested
  | .call callee paren arguments, ⟨level, isParen, fits, insideCallee, insideArguments⟩, ts,
      spelled => by
    simp only [Expr.marks, List.append_assoc] at spelled
    obtain ⟨us, _, rfl, first, behind⟩ := Spelled.append_iff.mp spelled
    obtain ⟨opening, _, isOpening, further, rfl⟩ := Spelled.cons_iff.mp behind
    obtain ⟨as, _, rfl, written, last⟩ := Spelled.append_iff.mp further
    obtain ⟨_, _, rfl, empty, rfl⟩ := Spelled.cons_iff.mp last
    cases empty
    have entries : Derives (.optional (.rule .arguments)) as := by
      rw [Expr.argumentMarks_eq] at written
      cases arguments with
      | nil =>
        cases written
        exact .absent
      | cons e es =>
        refine .present (.rule (derives_entries (List.cons_ne_nil _ _) fits ?_ written))
        exact fun a member ts spelled => .rule (derives_loosest
          (derives_exprs (e :: es) insideArguments a member ts spelled))
    refine derives_call_snoc (derives_looser_than level (derives_expr callee insideCallee us first)) ?_
    exact .left (.seq (derives_mark isOpening) (.seq entries (derives_mark isParen)))
  | .get object name, ⟨level, isName, wellFormed⟩, ts, spelled => by
    obtain ⟨us, _, rfl, first, behind⟩ := Spelled.append_iff.mp spelled
    obtain ⟨dot, _, isDot, last, rfl⟩ := Spelled.cons_iff.mp behind
    obtain ⟨_, _, rfl, empty, rfl⟩ := Spelled.cons_iff.mp last
    cases empty
    refine derives_call_snoc (derives_looser_than level (derives_expr object wellFormed us first)) ?_
    exact .right (.seq (derives_mark isDot) (derives_name isName))
  | .set object name value, ⟨level, isName, insideObject, insideValue⟩, ts, spelled => by
    obtain ⟨us, _, rfl, first, behind⟩ := Spelled.append_iff.mp spelled
    obtain ⟨dot, _, isDot, behind', rfl⟩ := Spelled.cons_iff.mp behind
    obtain ⟨_, _, rfl, behind'', rfl⟩ := Spelled.cons_iff.mp behind'
    obtain ⟨equals, vs, isEqual, second, rfl⟩ := Spelled.cons_iff.mp behind''
    have target : Derives (.optional (.inOrder [.rule .call, .mark .dot])) (us ++ [dot]) :=
      .present (.seq (derives_looser_than level (derives_expr object insideObject us first))
        (derives_mark isDot))
    have nested := derives_loosest
      (derives_expr value insideValue vs second)
    have whole := derives_assignment target isName isEqual nested
    rwa [List.append_assoc] at whole
  | .this _ keyword, isThis, ts, spelled => by
    obtain ⟨_, _, rfl, empty, rfl⟩ := Spelled.cons_iff.mp spelled
    cases empty
    exact derives_primary (p := .mark .thisWord) (by simp) (derives_mark isThis)
  | .super _ keyword method, ⟨isSuper, isName⟩, ts, spelled => by
    obtain ⟨_, _, rfl, behind, rfl⟩ := Spelled.cons_iff.mp spelled
    obtain ⟨dot, _, isDot, last, rfl⟩ := Spelled.cons_iff.mp behind
    obtain ⟨_, _, rfl, empty, rfl⟩ := Spelled.cons_iff.mp last
    cases empty
    exact derives_primary (p := .inOrder [.mark .superWord, .mark .dot, .name]) (by simp)
      (.seq (derives_mark isSuper) (.seq (derives_mark isDot) (derives_name isName)))

theorem derives_exprs : (es : List Expr) → Expr.AllWellFormed es → ∀ e ∈ es, ∀ ts,
    Spelled e.marks ts → Derives (.rule e.level.grammarRule) ts
  | [], _ => by simp
  | e :: rest, ⟨first, others⟩ =>
    List.forall_mem_cons.mpr ⟨derives_expr e first, derives_exprs rest others⟩

end

/-- What the grammar has instead of a tree, for every part of a program. -/
def formPhrase : Form → Phrase
  | .statement _ _ => .rule .statement
  | .declaration _ => .rule .declaration
  | .declarations _ => .many (.rule .declaration)
  | .function _ => .rule .function
  | .methods _ => .many (.rule .function)

theorem derives_expression {e : Expr} (wellFormed : e.WellFormed) (spelled : Spelled e.marks ts) :
    Derives (.rule .expression) ts :=
  .rule (derives_loosest
    (derives_expr e wellFormed ts spelled))

theorem derives_option {e : Option Expr} (wellFormed : ∀ inner ∈ e, inner.WellFormed)
    (spelled : Spelled (optionMarks [] e) ts) : Derives (.optional (.rule .expression)) ts := by
  cases e with
  | none =>
    cases spelled
    exact .absent
  | some e => exact .present (derives_expression (wellFormed e rfl) spelled)

theorem derives_exprStmt {value : Expr} (wellFormed : value.WellFormed)
    (spelled : Spelled (Stmt.expression value).marks ts) : Derives (.rule .exprStmt) ts := by
  obtain ⟨us, _, rfl, inside, last⟩ := Spelled.append_iff.mp spelled
  obtain ⟨semicolon, _, isSemicolon, empty, rfl⟩ := Spelled.cons_iff.mp last
  cases empty
  exact .rule (.seq (derives_expression wellFormed inside) (derives_mark isSemicolon))

theorem derives_varDecl {name : Token} {initializer : Option Expr}
    (wellFormed : (Stmt.var name initializer).WellFormed)
    (spelled : Spelled (Stmt.var name initializer).marks ts) : Derives (.rule .varDecl) ts := by
  obtain ⟨isName, inside⟩ := wellFormed
  obtain ⟨word, _, isVar, behind, rfl⟩ := Spelled.cons_iff.mp spelled
  obtain ⟨_, _, rfl, further, rfl⟩ := Spelled.cons_iff.mp behind
  obtain ⟨is, _, rfl, written, last⟩ := Spelled.append_iff.mp further
  obtain ⟨semicolon, _, isSemicolon, empty, rfl⟩ := Spelled.cons_iff.mp last
  cases empty
  have clause : Derives (.optional (.inOrder [.mark .equal, .rule .expression])) is := by
    cases initializer with
    | none =>
      cases written
      exact .absent
    | some e =>
      obtain ⟨equals, us, isEqual, value, rfl⟩ := Spelled.cons_iff.mp written
      exact .present (.seq (derives_mark isEqual) (derives_expression (inside e rfl) value))
  exact .rule (.seq (derives_mark isVar) (.seq (derives_name isName)
    (.seq clause (derives_mark isSemicolon))))

theorem derives_statement (member : p ∈ [Phrase.rule .exprStmt, .rule .forStmt, .rule .ifStmt,
      .rule .printStmt, .rule .returnStmt, .rule .whileStmt, .rule .block]) (h : Derives p ts) :
    Derives (.rule .statement) ts :=
  .rule (derives_oneOf member h)

theorem derives_declaration (member : p ∈ [Phrase.rule .classDecl, .rule .funDecl, .rule .varDecl,
      .rule .statement]) (h : Derives p ts) : Derives (.rule .declaration) ts :=
  .rule (derives_oneOf member h)

theorem derives_condition {word : Symbol} {condition : Expr} {ws : List Token} {q : Phrase}
    (wellFormed : condition.WellFormed) (header : Spelled (conditionMarks word condition) us)
    (behind : Derives q ws) :
    Derives (.seq (.mark word) (.seq (.mark .leftParen) (.seq (.rule .expression)
      (.seq (.mark .rightParen) q)))) (us ++ ws) := by
  obtain ⟨t, _, isWord, rest, rfl⟩ := Spelled.cons_iff.mp header
  obtain ⟨left, _, isLeft, further, rfl⟩ := Spelled.cons_iff.mp rest
  obtain ⟨cs, _, rfl, inside, last⟩ := Spelled.append_iff.mp further
  obtain ⟨right, _, isRight, empty, rfl⟩ := Spelled.cons_iff.mp last
  cases empty
  have whole := Derives.seq (derives_mark isWord) (.seq (derives_mark isLeft)
    (.seq (derives_expression wellFormed inside) (.seq (derives_mark isRight) behind)))
  simpa using whole

theorem derives_forStmt {initializer : Option Stmt} {condition increment : Option Expr}
    (initializes : ∀ s ∈ initializer, s.IsInitializer ∧ s.WellFormed)
    (tests : ∀ e ∈ condition, e.WellFormed) (steps : ∀ e ∈ increment, e.WellFormed)
    (header : Spelled (forHeader initializer condition increment) us)
    (inside : Derives (.rule .statement) ts) : Derives (.rule .forStmt) (us ++ ts) := by
  obtain ⟨t, ws, isFor, behind, rfl⟩ := Spelled.cons_iff.mp header
  obtain ⟨opening, vs, isOpening, further, rfl⟩ := Spelled.cons_iff.mp behind
  obtain ⟨xs, _, rfl, front, last⟩ := Spelled.append_iff.mp further
  obtain ⟨closing, _, isClosing, empty, rfl⟩ := Spelled.cons_iff.mp last
  cases empty
  obtain ⟨ys, _, rfl, before, second⟩ := Spelled.append_iff.mp front
  obtain ⟨semicolon, ns, isSemicolon, increments, rfl⟩ := Spelled.cons_iff.mp second
  obtain ⟨is, cs, rfl, first, conditions⟩ := Spelled.append_iff.mp before
  have clause : Derives (.oneOf [.rule .varDecl, .rule .exprStmt, .mark .semicolon]) is := by
    cases initializer with
    | none =>
      obtain ⟨semicolon, _, isSemicolon, empty, rfl⟩ := Spelled.cons_iff.mp first
      cases empty
      exact .right (.right (derives_mark isSemicolon))
    | some s =>
      obtain ⟨shape, wellFormed⟩ := initializes s rfl
      cases s with
      | var name initializer => exact .left (derives_varDecl wellFormed first)
      | expression value => exact .right (.left (derives_exprStmt wellFormed first))
      | _ => exact shape.elim
  have whole : Derives Rule.forStmt.body _ :=
    .seq (derives_mark isFor) (.seq (derives_mark isOpening) (.seq clause
      (.seq (derives_option tests conditions) (.seq (derives_mark isSemicolon)
        (.seq (derives_option steps increments) (.seq (derives_mark isClosing) inside))))))
  simpa using Derives.rule whole

theorem derives_block {opening closing : Token} (opens : opening.kind = .symbol .leftBrace)
    (inside : Derives (.many (.rule .declaration)) ts) (closes : closing.kind = .symbol .rightBrace) :
    Derives (.rule .block) (opening :: ts ++ [closing]) := by
  have whole : Derives Rule.block.body ([opening] ++ (ts ++ [closing])) :=
    .seq (derives_mark opens) (.seq inside (derives_mark closes))
  exact .rule whole

theorem derives_function {name closing : Token} {params : List Token}
    (isName : name.kind = .identifier) (fits : params.length ≤ Parser.maxEntries)
    (areNames : ∀ param ∈ params, param.kind = .identifier)
    (header : Spelled (functionHeader name params) us)
    (inside : Derives (.many (.rule .declaration)) ts) (closes : closing.kind = .symbol .rightBrace) :
    Derives (.rule .function) (us ++ ts ++ [closing]) := by
  obtain ⟨_, _, rfl, behind, rfl⟩ := Spelled.cons_iff.mp header
  obtain ⟨opening, _, isOpening, further, rfl⟩ := Spelled.cons_iff.mp behind
  obtain ⟨ps, _, rfl, written, last⟩ := Spelled.append_iff.mp further
  obtain ⟨right, _, isRight, last', rfl⟩ := Spelled.cons_iff.mp last
  obtain ⟨brace, _, isBrace, empty, rfl⟩ := Spelled.cons_iff.mp last'
  cases empty
  have list : Derives (.optional (.rule .parameters)) ps := by
    cases params with
    | nil =>
      cases written
      exact .absent
    | cons param rest =>
      refine .present (.rule (derives_entries (List.cons_ne_nil _ _) fits ?_ written))
      intro param member ts spelled
      obtain ⟨_, _, rfl, empty, rfl⟩ := Spelled.cons_iff.mp spelled
      cases empty
      exact derives_name (areNames _ member)
  have whole : Derives Rule.function.body _ :=
    .seq (derives_name isName) (.seq (derives_mark isOpening) (.seq list
      (.seq (derives_mark isRight) (derives_block isBrace inside closes))))
  simpa using Derives.rule whole

theorem derives_classDecl {name closing : Token} {superclass : Option Expr}
    (isName : name.kind = .identifier) (inherits : ∀ e ∈ superclass, Stmt.IsSuperclass e)
    (header : Spelled (classHeader name superclass) us)
    (inside : Derives (.many (.rule .function)) ts) (closes : closing.kind = .symbol .rightBrace) :
    Derives (.rule .classDecl) (us ++ ts ++ [closing]) := by
  obtain ⟨word, _, isClass, behind, rfl⟩ := Spelled.cons_iff.mp header
  obtain ⟨_, _, rfl, further, rfl⟩ := Spelled.cons_iff.mp behind
  obtain ⟨cs, _, rfl, written, last⟩ := Spelled.append_iff.mp further
  obtain ⟨brace, _, isBrace, empty, rfl⟩ := Spelled.cons_iff.mp last
  cases empty
  have clause : Derives (.optional (.inOrder [.mark .less, .name])) cs := by
    cases superclass with
    | none =>
      cases written
      exact .absent
    | some e =>
      have shape := inherits e rfl
      cases e with
      | var id superName =>
        obtain ⟨less, _, isLess, last, rfl⟩ := Spelled.cons_iff.mp written
        obtain ⟨_, _, rfl, empty, rfl⟩ := Spelled.cons_iff.mp last
        cases empty
        exact .present (.seq (derives_mark isLess) (derives_name shape))
      | _ => exact shape.elim
  have whole : Derives Rule.classDecl.body _ :=
    .seq (derives_mark isClass) (.seq (derives_name isName) (.seq clause
      (.seq (derives_mark isBrace) (.seq inside (derives_mark closes)))))
  simpa using Derives.rule whole

theorem derives_of_spells {form : Form} (h : Spells form ts) : Derives (formPhrase form) ts := by
  induction h with
  | expression wellFormed spelled =>
    exact derives_statement (by simp) (derives_exprStmt wellFormed spelled)
  | print wellFormed spelled =>
    obtain ⟨word, _, isPrint, behind, rfl⟩ := Spelled.cons_iff.mp spelled
    obtain ⟨us, _, rfl, inside, last⟩ := Spelled.append_iff.mp behind
    obtain ⟨semicolon, _, isSemicolon, empty, rfl⟩ := Spelled.cons_iff.mp last
    cases empty
    refine derives_statement (p := .rule .printStmt) (by simp) (.rule ?_)
    exact .seq (derives_mark isPrint) (.seq (derives_expression wellFormed inside)
      (derives_mark isSemicolon))
  | ret wellFormed spelled =>
    obtain ⟨isReturn, inside⟩ := wellFormed
    obtain ⟨_, _, rfl, behind, rfl⟩ := Spelled.cons_iff.mp spelled
    obtain ⟨us, _, rfl, written, last⟩ := Spelled.append_iff.mp behind
    obtain ⟨semicolon, _, isSemicolon, empty, rfl⟩ := Spelled.cons_iff.mp last
    cases empty
    refine derives_statement (p := .rule .returnStmt) (by simp) (.rule ?_)
    exact .seq (derives_mark isReturn) (.seq (derives_option inside written)
      (derives_mark isSemicolon))
  | block opens _ closes ih =>
    exact derives_statement (by simp) (derives_block opens ih closes)
  | branch wellFormed header _ ih =>
    refine derives_statement (p := .rule .ifStmt) (by simp) (.rule ?_)
    refine derives_condition wellFormed header ?_
    have alone := Derives.seq ih (.absent (p := .inOrder [.mark .elseWord, .rule .statement]))
    rwa [List.append_nil] at alone
  | branchElse wellFormed header _ isElse _ ih ih' =>
    rw [List.append_assoc]
    refine derives_statement (p := .rule .ifStmt) (by simp) (.rule ?_)
    refine derives_condition wellFormed header ?_
    exact .seq ih (.present (.seq (derives_mark isElse) ih'))
  | loop wellFormed header _ ih =>
    refine derives_statement (p := .rule .whileStmt) (by simp) (.rule ?_)
    exact derives_condition wellFormed header ih
  | forLoop initializes tests steps header _ ih =>
    exact derives_statement (by simp) (derives_forStmt initializes tests steps header ih)
  | statement _ ih => exact derives_declaration (p := .rule .statement) (by simp) ih
  | var wellFormed spelled => exact derives_declaration (by simp) (derives_varDecl wellFormed spelled)
  | funDecl isFun _ ih =>
    exact derives_declaration (p := .rule .funDecl) (by simp) (.rule (.seq (derives_mark isFun) ih))
  | classDecl isName inherits header _ closes ih =>
    exact derives_declaration (by simp) (derives_classDecl isName inherits header ih closes)
  | none | noMethods => exact .stop
  | more _ _ ih ih' | moreMethods _ _ ih ih' => exact .again ih ih'
  | function isName fits areNames header _ closes ih =>
    exact derives_function isName fits areNames header ih closes

end Grammar

end Lox
