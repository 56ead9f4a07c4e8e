import Lox.Proofs.Grammar
import Lox.Proofs.Syntax.Spells

namespace Lox.Grammar

theorem ofKind_eq_symbol {kind : Kind} {symbol : Symbol} :
    Terminal.ofKind kind = .symbol symbol ↔ kind = .symbol symbol := by
  cases kind <;> simp [Terminal.ofKind]

theorem ofKind_eq_identifier {kind : Kind} :
    Terminal.ofKind kind = .identifier ↔ kind = .identifier := by
  cases kind <;> simp [Terminal.ofKind]

/-- For every rule, the trees that can be written as a token list. -/
def Meaning : Rule → List Token → Prop
  | .program, ts => ∃ ss us eof, ts = us ++ [eof] ∧ eof.kind = .endOfInput ∧
    Spells (.declarations ss) us
  | .declaration, ts | .classDecl, ts | .funDecl, ts => ∃ s, Spells (.declaration s) ts
  | .function, ts => ∃ d, Spells (.function d) ts
  | .parameters, ts => ∃ params : List Token, params.length ≤ Parser.maxEntries ∧
    (∀ param ∈ params, param.kind = .identifier) ∧
      Spelled (entryMarks (fun param => [.exactly param]) params) ts
  | .varDecl, ts => ∃ name initializer, (Stmt.var name initializer).WellFormed ∧
    Spelled (Stmt.var name initializer).marks ts
  | .statement, ts | .forStmt, ts | .ifStmt, ts | .printStmt, ts | .returnStmt, ts
  | .whileStmt, ts => ∃ isOpen s, Spells (.statement isOpen s) ts
  | .exprStmt, ts => ∃ value : Expr, value.WellFormed ∧ Spelled (Stmt.expression value).marks ts
  | .block, ts => ∃ opening ss us closing, ts = opening :: us ++ [closing] ∧
    opening.kind = .symbol .leftBrace ∧ closing.kind = .symbol .rightBrace ∧
      Spells (.declarations ss) us
  | .expression, ts | .assignment, ts => ∃ e, SpellsExpr .assignment e ts
  | .logicOr, ts => ∃ e, SpellsExpr .disjunction e ts
  | .logicAnd, ts => ∃ e, SpellsExpr .conjunction e ts
  | .equality, ts => ∃ e, SpellsExpr .equality e ts
  | .comparison, ts => ∃ e, SpellsExpr .comparison e ts
  | .term, ts => ∃ e, SpellsExpr .term e ts
  | .factor, ts => ∃ e, SpellsExpr .factor e ts
  | .unary, ts => ∃ e, SpellsExpr .unary e ts
  | .call, ts => ∃ e, SpellsExpr .call e ts
  | .primary, ts => ∃ e, SpellsExpr .primary e ts
  | .arguments, ts => ∃ es : List Expr, es.length ≤ Parser.maxEntries ∧ (∀ e ∈ es, e.WellFormed) ∧
    Spelled (entryMarks Expr.marks es) ts

variable {ts us vs : List Token} {derives : Rule → List Token → Prop}

theorem holds_mark {symbol : Symbol} (h : (Phrase.mark symbol).Holds derives ts) :
    ∃ t, ts = [t] ∧ t.kind = .symbol symbol := by
  obtain ⟨t, rfl, kind⟩ := h
  exact ⟨t, rfl, ofKind_eq_symbol.mp kind⟩

theorem holds_name (h : Phrase.name.Holds derives ts) : ∃ t, ts = [t] ∧ t.kind = .identifier := by
  obtain ⟨t, rfl, kind⟩ := h
  exact ⟨t, rfl, ofKind_eq_identifier.mp kind⟩

theorem holds_operator (symbols : List Symbol) (nonempty : symbols ≠ [])
    (h : (Phrase.oneOf (symbols.map .mark)).Holds derives ts) :
    ∃ t, ts = [t] ∧ Parser.isOneOf symbols t.kind = true := by
  induction symbols with
  | nil => exact (nonempty rfl).elim
  | cons symbol rest ih =>
    cases rest with
    | nil =>
      obtain ⟨t, rfl, kind⟩ := holds_mark h
      exact ⟨t, rfl, by simp [Parser.isOneOf, kind]⟩
    | cons other rest =>
      rcases h with first | later
      · obtain ⟨t, rfl, kind⟩ := holds_mark first
        exact ⟨t, rfl, by simp [Parser.isOneOf, kind]⟩
      · obtain ⟨t, rfl, isOne⟩ := ih (List.cons_ne_nil _ _) later
        exact ⟨t, rfl, by rw [Parser.isOneOf, List.any_cons, Bool.or_eq_true]; exact .inr isOne⟩

theorem holds_entries {α : Type} {P : α → Prop} {marks : α → List Mark} {entry : Phrase}
    (each : ∀ ts, entry.Holds derives ts → ∃ a, P a ∧ Spelled (marks a) ts)
    (h : (Phrase.entries entry).Holds derives ts) :
    ∃ as : List α, as.length ≤ Parser.maxEntries ∧ (∀ a ∈ as, P a) ∧
      Spelled (entryMarks marks as) ts := by
  obtain ⟨us, _, rfl, first, parts, rfl, fits, others⟩ := h
  obtain ⟨a, holds, spelled⟩ := each us first
  have following : ∃ as : List α, as.length = parts.length ∧ (∀ a ∈ as, P a) ∧
      Spelled (as.flatMap fun a => .symbol .comma :: marks a) parts.flatten := by
    clear fits
    induction parts with
    | nil => exact ⟨[], rfl, by simp, .nil⟩
    | cons part parts ih =>
      obtain ⟨head, tail⟩ := List.forall_mem_cons.mp others
      obtain ⟨_, vs, rfl, separator, entry⟩ := head
      obtain ⟨comma, rfl, isComma⟩ := holds_mark separator
      obtain ⟨b, holds, spelled⟩ := each vs entry
      obtain ⟨bs, length, all, written⟩ := ih tail
      refine ⟨b :: bs, by simp [length], List.forall_mem_cons.mpr ⟨holds, all⟩, ?_⟩
      have whole : Spelled (.symbol .comma :: marks b ++ _) (comma :: vs ++ _) :=
        .cons isComma (spelled.append written)
      simpa using whole
  obtain ⟨as, length, all, written⟩ := following
  refine ⟨a :: as, ?_, List.forall_mem_cons.mpr ⟨holds, all⟩, spelled.append written⟩
  simp only [List.length_cons, length, Parser.maxEntries] at fits ⊢
  omega

theorem holds_operands {k : Precedence} {operand : Rule}
    (level : k ∈ Precedence.logicalLevels ++ Precedence.binaryLevels)
    (tighter : ∀ ts, derives operand ts → ∃ e, SpellsExpr k.tighter e ts)
    (h : (Phrase.operands operand k.operators).Holds derives ts) : ∃ e, SpellsExpr k e ts := by
  have nonempty : k.operators ≠ [] := by
    simp only [Precedence.logicalLevels, Precedence.binaryLevels, List.cons_append, List.nil_append,
      List.mem_cons, List.not_mem_nil, or_false] at level
    rcases level with rfl | rfl | rfl | rfl | rfl | rfl <;> simp [Precedence.operators]
  obtain ⟨us, _, rfl, first, parts, rfl, each⟩ := h
  obtain ⟨e, spells⟩ := tighter us first
  replace spells := spells.looser (Precedence.le_tighter k)
  clear first
  induction parts generalizing e us with
  | nil => exact ⟨e, by simpa using spells⟩
  | cons part parts ih =>
    obtain ⟨head, tail⟩ := List.forall_mem_cons.mp each
    obtain ⟨_, vs, rfl, sign, operand⟩ := head
    obtain ⟨operator, rfl, isOperator⟩ := holds_operator k.operators nonempty sign
    obtain ⟨right, second⟩ := tighter vs operand
    have whole := ih _ tail _ (spells.node level isOperator second)
    simpa using whole

theorem holds_call (h : Rule.call.body.Holds Meaning ts) : ∃ e, SpellsExpr .call e ts := by
  obtain ⟨us, _, rfl, first, parts, rfl, each⟩ := h
  obtain ⟨e, spells⟩ : ∃ e, SpellsExpr .primary e us := first
  replace spells := spells.looser (Precedence.le_tighter .call)
  induction parts generalizing e us with
  | nil => exact ⟨e, by simpa using spells⟩
  | cons part parts ih =>
    obtain ⟨head, tail⟩ := List.forall_mem_cons.mp each
    rw [List.flatten_cons, ← List.append_assoc]
    rcases head with ⟨_, _, rfl, opens, as, _, rfl, list, closes⟩ | ⟨_, _, rfl, separator, last⟩
    · obtain ⟨opening, rfl, isOpening⟩ := holds_mark opens
      obtain ⟨paren, rfl, isParen⟩ := holds_mark closes
      have list : ∃ es : List Expr, es.length ≤ Parser.maxEntries ∧ (∀ e ∈ es, e.WellFormed) ∧
          Spelled (entryMarks Expr.marks es) as := by
        rcases list with rfl | list
        · exact ⟨[], Nat.zero_le _, by simp, .nil⟩
        · exact list
      obtain ⟨es, fits, all, written⟩ := list
      have whole := spells.call isOpening isParen fits all written
      exact ih _ tail _ (by simpa using whole)
    · obtain ⟨dot, rfl, isDot⟩ := holds_mark separator
      obtain ⟨name, rfl, isName⟩ := holds_name last
      exact ih _ tail _ (spells.get isDot isName)

theorem holds_unary (h : Rule.unary.body.Holds Meaning ts) : ∃ e, SpellsExpr .unary e ts := by
  rcases h with ⟨_, us, rfl, sign, operand⟩ | tight
  · obtain ⟨operator, rfl, isOperator⟩ := holds_operator [.bang, .minus] (by simp) sign
    obtain ⟨e, spells⟩ : ∃ e, SpellsExpr .unary e us := operand
    have each : ∀ token ∈ [operator], Parser.isOneOf [.bang, .minus] token.kind = true := by
      simpa using isOperator
    exact ⟨_, SpellsExpr.unary each spells⟩
  · obtain ⟨e, spells⟩ : ∃ e, SpellsExpr .call e ts := tight
    exact ⟨e, spells.looser (Precedence.le_tighter .unary)⟩

theorem holds_assignment (h : Rule.assignment.body.Holds Meaning ts) :
    ∃ e, SpellsExpr .assignment e ts := by
  rcases h with ⟨_, _, rfl, object, _, _, rfl, target, _, vs, rfl, sign, value⟩ | tight
  · obtain ⟨name, rfl, isName⟩ := holds_name target
    obtain ⟨equals, rfl, isEqual⟩ := holds_mark sign
    obtain ⟨e, spells⟩ : ∃ e, SpellsExpr .assignment e vs := value
    rcases object with rfl | ⟨us, _, rfl, object, separator⟩
    · exact ⟨_, spells.assign 0 isName isEqual⟩
    · obtain ⟨target, first⟩ : ∃ e, SpellsExpr .call e us := object
      obtain ⟨dot, rfl, isDot⟩ := holds_mark separator
      exact ⟨_, by simpa using spells.set first isDot isName isEqual⟩
  · obtain ⟨e, spells⟩ : ∃ e, SpellsExpr .disjunction e ts := tight
    exact ⟨e, spells.looser (Precedence.le_tighter .assignment)⟩

theorem spells_literal {t : Token} (value : Literal) (kind : t.kind = value.kind) :
    ∃ e, SpellsExpr .primary e [t] :=
  ⟨.literal value, Precedence.le_refl _, trivial, Spelled.single kind⟩

theorem holds_primary (h : Rule.primary.body.Holds Meaning ts) : ∃ e, SpellsExpr .primary e ts := by
  rcases h with number | string | isTrue | isFalse | isNil | isThis | isName | grouping | method
  · obtain ⟨t, rfl, kind⟩ := number
    cases known : t.kind with
    | number value => exact spells_literal (.number value) known
    | _ => simp [known, Terminal.ofKind] at kind
  · obtain ⟨t, rfl, kind⟩ := string
    cases known : t.kind with
    | string contents => exact spells_literal (.string contents) known
    | _ => simp [known, Terminal.ofKind] at kind
  · obtain ⟨t, rfl, kind⟩ := holds_mark isTrue
    exact spells_literal (.bool true) kind
  · obtain ⟨t, rfl, kind⟩ := holds_mark isFalse
    exact spells_literal (.bool false) kind
  · obtain ⟨t, rfl, kind⟩ := holds_mark isNil
    exact spells_literal .nil kind
  · obtain ⟨t, rfl, kind⟩ := holds_mark isThis
    exact ⟨.this 0 t, Precedence.le_refl _, kind, Spelled.kept t⟩
  · obtain ⟨t, rfl, kind⟩ := holds_name isName
    exact ⟨.var 0 t, Precedence.le_refl _, kind, Spelled.kept t⟩
  · obtain ⟨_, _, rfl, opens, us, _, rfl, inner, closes⟩ := grouping
    obtain ⟨opening, rfl, isOpening⟩ := holds_mark opens
    obtain ⟨closing, rfl, isClosing⟩ := holds_mark closes
    obtain ⟨e, spells⟩ : ∃ e, SpellsExpr .assignment e us := inner
    exact ⟨.grouping e, Precedence.le_refl _, spells.wellFormed,
      .cons isOpening (spells.spelled.append (.symbol isClosing))⟩
  · obtain ⟨_, _, rfl, first, _, _, rfl, second, third⟩ := method
    obtain ⟨keyword, rfl, isSuper⟩ := holds_mark first
    obtain ⟨dot, rfl, isDot⟩ := holds_mark second
    obtain ⟨method, rfl, isName⟩ := holds_name third
    exact ⟨.super 0 keyword method, Precedence.le_refl _, ⟨isSuper, isName⟩,
      .cons rfl (.cons isDot (.cons rfl .nil))⟩

theorem holds_declarations {parts : List (List Token)}
    (each : ∀ part ∈ parts, ∃ s, Spells (.declaration s) part) :
    ∃ ss, Spells (.declarations ss) parts.flatten := by
  induction parts with
  | nil => exact ⟨[], .none⟩
  | cons part parts ih =>
    obtain ⟨⟨s, first⟩, tail⟩ := List.forall_mem_cons.mp each
    obtain ⟨ss, others⟩ := ih tail
    exact ⟨s :: ss, .more first others⟩

theorem holds_methods {parts : List (List Token)}
    (each : ∀ part ∈ parts, ∃ d, Spells (.function d) part) :
    ∃ ds, Spells (.methods ds) parts.flatten := by
  induction parts with
  | nil => exact ⟨[], .noMethods⟩
  | cons part parts ih =>
    obtain ⟨⟨d, first⟩, tail⟩ := List.forall_mem_cons.mp each
    obtain ⟨ds, others⟩ := ih tail
    exact ⟨d :: ds, .moreMethods first others⟩

theorem holds_option (h : (Phrase.optional (.rule .expression)).Holds Meaning ts) :
    ∃ e : Option Expr, (∀ inner ∈ e, inner.WellFormed) ∧ Spelled (optionMarks [] e) ts := by
  rcases h with rfl | ⟨e, spells⟩
  · exact ⟨none, by simp, .nil⟩
  · exact ⟨some e, by simpa using spells.wellFormed, spells.spelled⟩

theorem holds_classDecl (h : Rule.classDecl.body.Holds Meaning ts) :
    ∃ s, Spells (.declaration s) ts := by
  obtain ⟨_, _, rfl, first, _, _, rfl, second, cs, _, rfl, clause, _, _, rfl, third, ms, _, rfl,
    ⟨parts, rfl, each⟩, last⟩ := h
  obtain ⟨word, rfl, isClass⟩ := holds_mark first
  obtain ⟨name, rfl, isName⟩ := holds_name second
  obtain ⟨brace, rfl, isBrace⟩ := holds_mark third
  obtain ⟨closing, rfl, isClosing⟩ := holds_mark last
  obtain ⟨methods, spells⟩ := holds_methods each
  obtain ⟨superclass, inherits, written⟩ : ∃ superclass : Option Expr,
      (∀ e ∈ superclass, Stmt.IsSuperclass e) ∧
        Spelled (optionMarks [.symbol .less] superclass) cs := by
    rcases clause with rfl | ⟨_, _, rfl, first, second⟩
    · exact ⟨none, by simp, .nil⟩
    · obtain ⟨less, rfl, isLess⟩ := holds_mark first
      obtain ⟨superName, rfl, isName⟩ := holds_name second
      exact ⟨some (.var 0 superName), by simpa [Stmt.IsSuperclass] using isName,
        .cons isLess (Spelled.kept superName)⟩
  have header : Spelled (classHeader name superclass) (word :: name :: cs ++ [brace]) :=
    .cons isClass (.cons rfl (written.append (.symbol isBrace)))
  exact ⟨_, by simpa using Spells.classDecl isName inherits header spells isClosing⟩

theorem holds_function (h : Rule.function.body.Holds Meaning ts) : ∃ d, Spells (.function d) ts := by
  obtain ⟨_, _, rfl, first, _, _, rfl, second, ps, _, rfl, list, _, _, rfl, third,
    brace, ss, us, closing, rfl, isBrace, isClosing, spells⟩ := h
  obtain ⟨name, rfl, isName⟩ := holds_name first
  obtain ⟨opening, rfl, isOpening⟩ := holds_mark second
  obtain ⟨right, rfl, isRight⟩ := holds_mark third
  obtain ⟨params, fits, areNames, written⟩ : ∃ params : List Token,
      params.length ≤ Parser.maxEntries ∧ (∀ param ∈ params, param.kind = .identifier) ∧
        Spelled (entryMarks (fun param => [.exactly param]) params) ps := by
    rcases list with rfl | list
    · exact ⟨[], Nat.zero_le _, by simp, .nil⟩
    · exact list
  have header : Spelled (functionHeader name params) (name :: opening :: ps ++ [right, brace]) :=
    .cons rfl (.cons isOpening (written.append (.cons isRight (.cons isBrace .nil))))
  exact ⟨_, by simpa using Spells.function isName fits areNames header spells isClosing⟩

theorem holds_varDecl (h : Rule.varDecl.body.Holds Meaning ts) :
    ∃ name initializer, (Stmt.var name initializer).WellFormed ∧
      Spelled (Stmt.var name initializer).marks ts := by
  obtain ⟨_, _, rfl, first, _, _, rfl, second, is, _, rfl, clause, last⟩ := h
  obtain ⟨word, rfl, isVar⟩ := holds_mark first
  obtain ⟨name, rfl, isName⟩ := holds_name second
  obtain ⟨semicolon, rfl, isSemicolon⟩ := holds_mark last
  obtain ⟨initializer, inside, written⟩ : ∃ initializer : Option Expr,
      (∀ e ∈ initializer, e.WellFormed) ∧
        Spelled (optionMarks [.symbol .equal] initializer) is := by
    rcases clause with rfl | ⟨_, _, rfl, first, e, spells⟩
    · exact ⟨none, by simp, .nil⟩
    · obtain ⟨equals, rfl, isEqual⟩ := holds_mark first
      exact ⟨some e, by simpa using spells.wellFormed, .cons isEqual spells.spelled⟩
  exact ⟨name, initializer, ⟨isName, inside⟩,
    .cons isVar (.cons rfl (written.append (.symbol isSemicolon)))⟩

theorem holds_exprStmt (h : Rule.exprStmt.body.Holds Meaning ts) :
    ∃ value : Expr, value.WellFormed ∧ Spelled (Stmt.expression value).marks ts := by
  obtain ⟨us, _, rfl, ⟨value, spells⟩, last⟩ := h
  obtain ⟨semicolon, rfl, isSemicolon⟩ := holds_mark last
  exact ⟨value, spells.wellFormed, spells.spelled.append (.symbol isSemicolon)⟩

theorem holds_forStmt (h : Rule.forStmt.body.Holds Meaning ts) :
    ∃ isOpen s, Spells (.statement isOpen s) ts := by
  obtain ⟨_, _, rfl, first, _, _, rfl, second, is, _, rfl, clause, cs, _, rfl, tested, _, _, rfl,
    third, ns, _, rfl, stepped, _, us, rfl, last, isOpen, body, spells⟩ := h
  obtain ⟨word, rfl, isFor⟩ := holds_mark first
  obtain ⟨opening, rfl, isOpening⟩ := holds_mark second
  obtain ⟨semicolon, rfl, isSemicolon⟩ := holds_mark third
  obtain ⟨closing, rfl, isClosing⟩ := holds_mark last
  obtain ⟨condition, tests, conditions⟩ := holds_option tested
  obtain ⟨increment, steps, increments⟩ := holds_option stepped
  obtain ⟨initializer, initializes, written⟩ : ∃ initializer : Option Stmt,
      (∀ s ∈ initializer, s.IsInitializer ∧ s.WellFormed) ∧
        Spelled (initializerMarks initializer) is := by
    rcases clause with ⟨name, value, wellFormed, spelled⟩ | ⟨value, wellFormed, spelled⟩ | alone
    · exact ⟨some (.var name value), by simpa [Stmt.IsInitializer] using wellFormed, spelled⟩
    · exact ⟨some (.expression value), by simpa [Stmt.IsInitializer, Stmt.WellFormed] using wellFormed,
        spelled⟩
    · obtain ⟨semicolon, rfl, isSemicolon⟩ := holds_mark alone
      exact ⟨none, by simp, .symbol isSemicolon⟩
  have behind : Spelled (.symbol .semicolon :: optionMarks [] increment) (semicolon :: ns) :=
    .cons isSemicolon increments
  have header : Spelled (forHeader initializer condition increment)
      (word :: opening :: is ++ cs ++ semicolon :: ns ++ [closing]) :=
    .cons isFor (.cons isOpening
      (((written.append conditions).append behind).append (.symbol isClosing)))
  exact ⟨isOpen, _, by simpa using Spells.forLoop initializes tests steps header spells⟩

theorem holds_ifStmt (h : Rule.ifStmt.body.Holds Meaning ts) :
    ∃ isOpen s, Spells (.statement isOpen s) ts := by
  obtain ⟨_, _, rfl, first, _, _, rfl, second, cs, _, rfl, ⟨condition, test⟩, _, _, rfl, third,
    us, _, rfl, ⟨isOpen, thenBranch, spells⟩, clause⟩ := h
  obtain ⟨word, rfl, isIf⟩ := holds_mark first
  obtain ⟨opening, rfl, isOpening⟩ := holds_mark second
  obtain ⟨closing, rfl, isClosing⟩ := holds_mark third
  have header : Spelled (conditionMarks .ifWord condition) (word :: opening :: cs ++ [closing]) :=
    .cons isIf (.cons isOpening (test.spelled.append (.symbol isClosing)))
  have branch := Spells.branch test.wellFormed header spells
  rcases clause with rfl | ⟨_, vs, rfl, last, isOpen', elseBranch, spells'⟩
  · exact ⟨true, _, by simpa using branch⟩
  · obtain ⟨elseToken, rfl, isElse⟩ := holds_mark last
    obtain ⟨s, isOpen'', whole⟩ := branch.attach isElse spells'
    exact ⟨isOpen'', s, by simpa using whole⟩

theorem holds_whileStmt (h : Rule.whileStmt.body.Holds Meaning ts) :
    ∃ isOpen s, Spells (.statement isOpen s) ts := by
  obtain ⟨_, _, rfl, first, _, _, rfl, second, cs, _, rfl, ⟨condition, test⟩, _, us, rfl, third,
    isOpen, body, spells⟩ := h
  obtain ⟨word, rfl, isWhile⟩ := holds_mark first
  obtain ⟨opening, rfl, isOpening⟩ := holds_mark second
  obtain ⟨closing, rfl, isClosing⟩ := holds_mark third
  have header : Spelled (conditionMarks .whileWord condition) (word :: opening :: cs ++ [closing]) :=
    .cons isWhile (.cons isOpening (test.spelled.append (.symbol isClosing)))
  exact ⟨isOpen, _, by simpa using Spells.loop test.wellFormed header spells⟩

theorem holds_printStmt (h : Rule.printStmt.body.Holds Meaning ts) :
    ∃ isOpen s, Spells (.statement isOpen s) ts := by
  obtain ⟨_, _, rfl, first, vs, _, rfl, ⟨value, spells⟩, last⟩ := h
  obtain ⟨word, rfl, isPrint⟩ := holds_mark first
  obtain ⟨semicolon, rfl, isSemicolon⟩ := holds_mark last
  have written : Spelled (Stmt.print value).marks (word :: vs ++ [semicolon]) :=
    .cons isPrint (spells.spelled.append (.symbol isSemicolon))
  exact ⟨false, _, .print spells.wellFormed written⟩

theorem holds_returnStmt (h : Rule.returnStmt.body.Holds Meaning ts) :
    ∃ isOpen s, Spells (.statement isOpen s) ts := by
  obtain ⟨_, _, rfl, first, vs, _, rfl, valued, last⟩ := h
  obtain ⟨word, rfl, isReturn⟩ := holds_mark first
  obtain ⟨semicolon, rfl, isSemicolon⟩ := holds_mark last
  obtain ⟨value, wellFormed, spelled⟩ := holds_option valued
  have written : Spelled (Stmt.ret word value).marks (word :: vs ++ [semicolon]) :=
    .cons rfl (spelled.append (.symbol isSemicolon))
  exact ⟨false, _, .ret ⟨isReturn, wellFormed⟩ written⟩

theorem holds_block (h : Rule.block.body.Holds Meaning ts) : Meaning .block ts := by
  obtain ⟨_, _, rfl, first, _, _, rfl, ⟨parts, rfl, each⟩, last⟩ := h
  obtain ⟨opening, rfl, isOpening⟩ := holds_mark first
  obtain ⟨closing, rfl, isClosing⟩ := holds_mark last
  obtain ⟨ss, spells⟩ := holds_declarations each
  exact ⟨opening, ss, _, closing, by simp, isOpening, isClosing, spells⟩

theorem holds_statement (h : Rule.statement.body.Holds Meaning ts) :
    ∃ isOpen s, Spells (.statement isOpen s) ts := by
  rcases h with ⟨value, wellFormed, spelled⟩ | other | other | other | other | other | block
  · exact ⟨false, _, .expression wellFormed spelled⟩
  · exact other
  · exact other
  · exact other
  · exact other
  · exact other
  · obtain ⟨opening, ss, us, closing, rfl, isOpening, isClosing, spells⟩ := block
    exact ⟨false, _, .block isOpening spells isClosing⟩

theorem holds_declaration (h : Rule.declaration.body.Holds Meaning ts) :
    ∃ s, Spells (.declaration s) ts := by
  rcases h with other | other | ⟨name, initializer, wellFormed, spelled⟩ | ⟨isOpen, s, spells⟩
  · exact other
  · exact other
  · exact ⟨_, .var wellFormed spelled⟩
  · exact ⟨s, .statement spells⟩

theorem holds_program (h : Rule.program.body.Holds Meaning ts) : Meaning .program ts := by
  obtain ⟨_, _, rfl, ⟨parts, rfl, each⟩, eof, rfl, isEnd⟩ := h
  obtain ⟨ss, spells⟩ := holds_declarations each
  refine ⟨ss, _, eof, rfl, ?_, spells⟩
  cases known : eof.kind <;> simp [known, Terminal.ofKind] at isEnd ⊢

theorem meaning_closed (name : Rule) (ts : List Token) (h : name.body.Holds Meaning ts) :
    Meaning name ts := by
  cases name with
  | program => exact holds_program h
  | declaration => exact holds_declaration h
  | classDecl => exact holds_classDecl h
  | funDecl =>
    obtain ⟨_, us, rfl, first, d, spells⟩ := h
    obtain ⟨word, rfl, isFun⟩ := holds_mark first
    exact ⟨_, .funDecl isFun spells⟩
  | function => exact holds_function h
  | parameters =>
    refine holds_entries (fun ts name => ?_) h
    obtain ⟨param, rfl, isName⟩ := holds_name name
    exact ⟨param, isName, Spelled.kept param⟩
  | varDecl => exact holds_varDecl h
  | statement => exact holds_statement h
  | exprStmt => exact holds_exprStmt h
  | forStmt => exact holds_forStmt h
  | ifStmt => exact holds_ifStmt h
  | printStmt => exact holds_printStmt h
  | returnStmt => exact holds_returnStmt h
  | whileStmt => exact holds_whileStmt h
  | block => exact holds_block h
  | expression => exact h
  | assignment => exact holds_assignment h
  | logicOr => exact holds_operands (k := .disjunction) (by decide) (fun _ => id) h
  | logicAnd => exact holds_operands (k := .conjunction) (by decide) (fun _ => id) h
  | equality => exact holds_operands (k := .equality) (by decide) (fun _ => id) h
  | comparison => exact holds_operands (k := .comparison) (by decide) (fun _ => id) h
  | term => exact holds_operands (k := .term) (by decide) (fun _ => id) h
  | factor => exact holds_operands (k := .factor) (by decide) (fun _ => id) h
  | unary => exact holds_unary h
  | call => exact holds_call h
  | arguments =>
    refine holds_entries (fun ts entry => ?_) h
    obtain ⟨e, spells⟩ : ∃ e, SpellsExpr .assignment e ts := entry
    exact ⟨e, spells.wellFormed, spells.spelled⟩
  | primary => exact holds_primary h

/-- What a rule derives has a tree. -/
theorem meaning_of_derives {name : Rule} (h : Derives (.rule name) ts) : Meaning name ts :=
  h.holds meaning_closed

end Lox.Grammar
