import Lox.Proofs.Parser.ExpressionComplete
import Lox.Proofs.Parser.StatementSound

namespace Lox

def Stmt.Same (s s' : Stmt) : Prop := s'.eraseIds = s.eraseIds

def SameOption (e e' : Option Expr) : Prop := e'.map Expr.eraseIds = e.map Expr.eraseIds

def SameFunction (d d' : FunctionDecl) : Prop := Stmt.eraseFunctionIds d' = Stmt.eraseFunctionIds d

def SameStatements (ss ss' : List Stmt) : Prop := Stmt.eraseAllIds ss' = Stmt.eraseAllIds ss

def SameMethods (ds ds' : List FunctionDecl) : Prop :=
  Stmt.eraseMethodIds ds' = Stmt.eraseMethodIds ds

def NoElse (rest : List Token) : Prop := ∀ t ∈ rest.head?, t.kind ≠ .symbol .elseWord

namespace Parser

/-- The rule of a form reads every tree of the form back, if there is fuel for what is nested. -/
def ReadBack : Form → List Token → Prop
  | .statement isOpen s, ts => ∀ fuel rest, ts.length ≤ fuel.length + 1 →
    (isOpen = true → NoElse rest) →
    Accepts (statementRule (statementAt fuel) (block (declarationAt fuel))) ts rest s.Same
  | .declaration s, ts => ∀ fuel rest, ts.length ≤ fuel.length + 1 → NoElse rest →
    Accepts (declarationRule (statementRule (statementAt fuel) (block (declarationAt fuel)))
      (block (declarationAt fuel))) ts rest s.Same
  | .declarations ss, ts => ∀ (closes : Kind → Bool) fuel spare rest (s : State),
    ts.length ≤ fuel.length → ts.length ≤ spare.length →
    (∀ kind, closes kind = true → kind = .symbol .rightBrace) →
    (∀ t ∈ rest.head?, closes t.kind = true) → s.rest = ts ++ rest →
    ∃ ss' s', declarations closes (declarationAt fuel) spare s = (ss', s') ∧ s'.rest = rest ∧
      s'.errors = s.errors ∧ SameStatements ss ss'
  | .function d, ts => ∀ kind fuel rest, ts.length ≤ fuel.length →
    Accepts (functionRule kind (block (declarationAt fuel))) ts rest (SameFunction d)
  | .methods ds, ts => ∀ fuel spare rest, ts.length ≤ fuel.length → ts.length ≤ spare.length →
    (∀ t ∈ rest.head?, t.kind = .symbol .rightBrace) →
    Accepts (methods (block (declarationAt fuel)) spare) ts rest (SameMethods ds)

variable {ts us rest : List Token} {isOpen : Bool} {fuel : List Token}

theorem ends_of_kind {l : Precedence} {t : Token} {symbol : Symbol} (kind : t.kind = .symbol symbol)
    (none : Precedence.ofOperator (.symbol symbol) = none) : Ends l (t :: rest) :=
  .closed (by rw [kind, none])

theorem accepts_expressionRule {value : Expr} (wellFormed : value.WellFormed)
    (spelled : Spelled (Stmt.expression value).marks ts) :
    Accepts expressionRule ts rest (Stmt.expression value).Same := by
  obtain ⟨us, _, rfl, inside, last⟩ := Spelled.append_iff.mp spelled
  obtain ⟨semicolon, _, isSemicolon, empty, rfl⟩ := Spelled.cons_iff.mp last
  cases empty
  refine Accepts.bind (accepts_expression wellFormed inside (ends_of_kind isSemicolon rfl))
    fun value' same => ?_
  refine Accepts.bindToken (Accepts.expect isSemicolon _) fun _ _ => Accepts.pure ?_
  simpa [Stmt.Same, Stmt.eraseIds, Expr.Same] using same

theorem accepts_expressionUnlessAt {e : Option Expr} {symbol : Symbol} {t : Token}
    (wellFormed : ∀ inner ∈ e, inner.WellFormed) (spelled : Spelled (optionMarks [] e) ts)
    (kind : t.kind = .symbol symbol) (ends : Precedence.ofOperator (.symbol symbol) = none)
    (starts : Expr.startsExpression (.symbol symbol) = false) :
    Accepts (expressionUnlessAt symbol) ts (t :: rest) (SameOption e) := by
  cases e with
  | none =>
    cases spelled
    refine Accepts.bindNothing (Accepts.isAt kind) ?_
    rintro _ rfl
    exact Accepts.pure rfl
  | some e =>
    have inside : e.WellFormed := wellFormed e rfl
    have spelled : Spelled e.marks ts := spelled
    refine Accepts.bindNothing (Accepts.isAt_not fun first found isAt => ?_) ?_
    · obtain ⟨first', us, rfl, begins, -⟩ := startsAt_level e inside spelled
      cases found
      rw [isAt, starts] at begins
      cases begins
    · rintro _ rfl
      refine Accepts.map (accepts_expression inside spelled (ends_of_kind kind ends)) fun e' same => ?_
      simpa [SameOption, Expr.Same] using same

theorem accepts_initializerClause {e : Option Expr} {t : Token}
    (wellFormed : ∀ inner ∈ e, inner.WellFormed)
    (spelled : Spelled (optionMarks [.symbol .equal] e) ts) (kind : t.kind = .symbol .semicolon) :
    Accepts initializerClause ts (t :: rest) (SameOption e) := by
  cases e with
  | none =>
    cases spelled
    refine Accepts.bindNothing (Accepts.accepts_not (by simp [kind])) ?_
    rintro _ rfl
    exact Accepts.pure rfl
  | some e =>
    obtain ⟨equals, us, isEqual, inside, rfl⟩ := Spelled.cons_iff.mp spelled
    refine Accepts.bindToken (Accepts.accepts isEqual) ?_
    rintro _ rfl
    refine Accepts.map (accepts_expression (wellFormed e rfl) inside (ends_of_kind kind rfl))
      fun e' same => ?_
    simpa [SameOption, Expr.Same] using same

theorem accepts_varRule {name word : Token} {initializer : Option Expr}
    (wellFormed : (Stmt.var name initializer).WellFormed)
    (spelled : Spelled (Stmt.var name initializer).marks (word :: ts)) :
    Accepts varRule ts rest (Stmt.var name initializer).Same := by
  obtain ⟨_, _, -, behind, same⟩ := Spelled.cons_iff.mp spelled
  obtain ⟨rfl, rfl⟩ := List.cons.inj same
  obtain ⟨_, vs, rfl, further, rfl⟩ := Spelled.cons_iff.mp behind
  obtain ⟨is, _, rfl, inside, last⟩ := Spelled.append_iff.mp further
  obtain ⟨semicolon, _, isSemicolon, empty, rfl⟩ := Spelled.cons_iff.mp last
  cases empty
  rw [varRule_eq]
  refine Accepts.bindToken (Accepts.expectName wellFormed.1 _) ?_
  rintro _ rfl
  refine Accepts.bind (accepts_initializerClause wellFormed.2 inside isSemicolon)
    fun initializer' same => ?_
  refine Accepts.bindToken (Accepts.expect isSemicolon _) fun _ _ => Accepts.pure ?_
  simpa [Stmt.Same, Stmt.eraseIds, SameOption] using same

theorem accepts_forInitializer {first : Option Stmt}
    (initializes : ∀ s ∈ first, s.IsInitializer ∧ s.WellFormed)
    (spelled : Spelled (initializerMarks first) ts) :
    Accepts forInitializer ts rest fun first' =>
      first'.map Stmt.eraseIds = first.map Stmt.eraseIds := by
  cases first with
  | none =>
    obtain ⟨semicolon, _, isSemicolon, empty, rfl⟩ := Spelled.cons_iff.mp spelled
    cases empty
    refine Accepts.bindLast (Accepts.accepts isSemicolon) ?_
    rintro _ rfl
    exact Accepts.pure rfl
  | some s =>
    obtain ⟨shape, wellFormed⟩ := initializes s rfl
    cases s with
    | var name initializer =>
      obtain ⟨word, us, isVar, -, rfl⟩ := Spelled.cons_iff.mp spelled
      have kind : word.kind = .symbol .varWord := isVar
      refine Accepts.bindNothing (Accepts.accepts_not (by simp [kind])) ?_
      rintro _ rfl
      refine Accepts.bindToken (Accepts.accepts kind) ?_
      rintro _ rfl
      refine Accepts.map (accepts_varRule wellFormed spelled) fun s' same => ?_
      simpa [Stmt.Same] using same
    | expression value =>
      obtain ⟨us, vs, rfl, inside, -⟩ := Spelled.append_iff.mp spelled
      obtain ⟨t, ws, rfl, begins, -⟩ := startsAt_level value wellFormed inside
      have starts : ∀ symbol, Expr.startsExpression (.symbol symbol) = false →
          ∀ first ∈ (t :: ws ++ vs ++ rest).head?, first.kind ≠ .symbol symbol := by
        rintro symbol no _ ⟨⟩ isSymbol
        rw [isSymbol, no] at begins
        cases begins
      refine Accepts.bindNothing (Accepts.accepts_not (starts .semicolon rfl)) ?_
      rintro _ rfl
      refine Accepts.bindNothing (Accepts.accepts_not (starts .varWord rfl)) ?_
      rintro _ rfl
      refine Accepts.map (accepts_expressionRule wellFormed spelled) fun s' same => ?_
      simpa [Stmt.Same] using same
    | _ => exact shape.elim

theorem accepts_superclassClause {superclass : Option Expr} {brace : Token}
    (inherits : ∀ e ∈ superclass, Stmt.IsSuperclass e)
    (spelled : Spelled (optionMarks [.symbol .less] superclass) ts)
    (isBrace : brace.kind = .symbol .leftBrace) :
    Accepts superclassClause ts (brace :: rest) (SameOption superclass) := by
  cases superclass with
  | none =>
    cases spelled
    refine Accepts.bindNothing (Accepts.accepts_not (by simp [isBrace])) ?_
    rintro _ rfl
    exact Accepts.pure rfl
  | some e =>
    have shape := inherits e rfl
    cases e with
    | var id name =>
      obtain ⟨less, _, isLess, behind, rfl⟩ := Spelled.cons_iff.mp spelled
      obtain ⟨_, _, rfl, empty, rfl⟩ := Spelled.cons_iff.mp behind
      cases empty
      refine Accepts.bindToken (Accepts.accepts isLess) ?_
      rintro _ rfl
      refine Accepts.bindToken (Accepts.expectName shape _) ?_
      rintro _ rfl
      exact Accepts.bindNothing Accepts.freshId fun _ _ => Accepts.pure rfl
    | _ => exact shape.elim

theorem accepts_condition {word : Symbol} {condition : Expr} (opening closing : ParseError.Cause)
    (wellFormed : condition.WellFormed) (header : Spelled (conditionMarks word condition) us) :
    ∃ t vs, us = t :: vs ∧ t.kind = .symbol word ∧
      ∀ {α : Type} {next : Expr → Parser α} {ws rest : List Token} {Q : α → Prop},
        (∀ condition', condition.Same condition' → Accepts (next condition') ws rest Q) →
        Accepts (do
          let _ ← expect .leftParen opening
          let condition ← expression
          let _ ← expect .rightParen closing
          next condition) (vs ++ ws) rest Q := by
  obtain ⟨t, vs, isWord, behind, rfl⟩ := Spelled.cons_iff.mp header
  obtain ⟨left, xs, isLeft, further, rfl⟩ := Spelled.cons_iff.mp behind
  obtain ⟨cs, _, rfl, inside, last⟩ := Spelled.append_iff.mp further
  obtain ⟨right, _, isRight, empty, rfl⟩ := Spelled.cons_iff.mp last
  cases empty
  refine ⟨t, _, rfl, isWord, fun {α next ws rest Q} then' => ?_⟩
  refine Accepts.bindToken (Accepts.expect isLeft _) fun _ _ => ?_
  rw [show (cs ++ [right]).append ws = cs ++ right :: ws by simp]
  refine Accepts.bind (accepts_expression wellFormed inside (ends_of_kind isRight rfl))
    fun condition' same => ?_
  exact Accepts.bindToken (Accepts.expect isRight _) fun _ _ => then' condition' same

theorem accepts_statementAt {s : Stmt} (spells : Spells (.statement isOpen s) ts)
    (h : ReadBack (.statement isOpen s) ts) (enough : ts.length ≤ fuel.length)
    (free : isOpen = true → NoElse rest) : Accepts (statementAt fuel) ts rest s.Same := by
  obtain ⟨t, us, rfl, -⟩ := spells.statement_starts
  obtain ⟨_, fuel, rfl⟩ := List.exists_cons_of_length_pos (Nat.lt_of_lt_of_le (Nat.succ_pos _) enough)
  exact h fuel rest enough free

theorem declarationAt_ok {s : Stmt} (spells : Spells (.declaration s) ts)
    (h : ReadBack (.declaration s) ts) (enough : ts.length ≤ fuel.length) (free : NoElse rest)
    {state : State} (start : state.rest = ts ++ rest) :
    ∃ s' state', declarationAt fuel state = (some s', state') ∧ state'.rest = rest ∧
      state'.errors = state.errors ∧ s.Same s' := by
  obtain ⟨t, us, rfl, -⟩ := spells.declaration_starts
  obtain ⟨_, fuel, rfl⟩ := List.exists_cons_of_length_pos (Nat.lt_of_lt_of_le (Nat.succ_pos _) enough)
  obtain ⟨s', state', run, hrest, herrors, same⟩ := h fuel rest enough free state start
  exact ⟨s', state', by simp only [declarationAt, recover, run], hrest, herrors, same⟩

theorem accepts_block {ss : List Stmt} {closing : Token} (h : ReadBack (.declarations ss) ts)
    (isClosing : closing.kind = .symbol .rightBrace) (enough : ts.length ≤ fuel.length) :
    Accepts (block (declarationAt fuel)) (ts ++ [closing]) rest (SameStatements ss) := by
  intro s start
  rw [List.append_assoc, List.singleton_append] at start
  obtain ⟨ss', s', run, hrest, herrors, same⟩ :=
    h (· == .symbol .rightBrace) fuel s.rest (closing :: rest) s enough (by simp [start])
      (by simp) (by simp [isClosing]) start
  obtain ⟨_, s'', run', hrest', herrors', -⟩ :=
    Accepts.expect isClosing .blockClosing s' hrest
  refine ⟨ss', s'', ?_, hrest', herrors'.trans herrors, same⟩
  rw [block_eq, run, bind_ok run']
  rfl

theorem readBack_expression {value : Expr} (wellFormed : value.WellFormed)
    (spelled : Spelled (Stmt.expression value).marks ts) :
    ReadBack (.statement false (.expression value)) ts := by
  intro fuel rest bound free
  obtain ⟨us, vs, rfl, inside, -⟩ := Spelled.append_iff.mp spelled
  obtain ⟨t, ws, rfl, begins, -⟩ := startsAt_level value wellFormed inside
  refine Accepts.bindNothing (Accepts.takeIf_none ?_) ?_
  · rintro _ ⟨⟩
    by_contra other
    revert begins other
    cases t.kind with
    | symbol fixed => cases fixed <;> decide
    | identifier | string | number | endOfInput => simp [isOneOf]
  · rintro _ rfl
    exact accepts_expressionRule wellFormed spelled

theorem readBack_print {value : Expr} (wellFormed : value.WellFormed)
    (spelled : Spelled (Stmt.print value).marks ts) :
    ReadBack (.statement false (.print value)) ts := by
  intro fuel rest bound free
  obtain ⟨t, us, isPrint, behind, rfl⟩ := Spelled.cons_iff.mp spelled
  have kind : t.kind = .symbol .printWord := isPrint
  refine Accepts.bindToken (Accepts.takeIf (by rw [kind]; rfl)) ?_
  rintro _ rfl
  simp only [kind]
  obtain ⟨vs, _, rfl, inside, last⟩ := Spelled.append_iff.mp behind
  obtain ⟨semicolon, _, isSemicolon, empty, rfl⟩ := Spelled.cons_iff.mp last
  cases empty
  refine Accepts.bind (accepts_expression wellFormed inside (ends_of_kind isSemicolon rfl))
    fun value' same => ?_
  refine Accepts.bindToken (Accepts.expect isSemicolon _) fun _ _ => Accepts.pure ?_
  simpa [Stmt.Same, Stmt.eraseIds, Expr.Same] using same

theorem readBack_ret {keyword : Token} {value : Option Expr}
    (wellFormed : (Stmt.ret keyword value).WellFormed)
    (spelled : Spelled (Stmt.ret keyword value).marks ts) :
    ReadBack (.statement false (.ret keyword value)) ts := by
  intro fuel rest bound free
  obtain ⟨isReturn, inside⟩ := wellFormed
  obtain ⟨t, us, rfl, behind, rfl⟩ := Spelled.cons_iff.mp spelled
  refine Accepts.bindToken (Accepts.takeIf (by rw [isReturn]; rfl)) ?_
  rintro _ rfl
  simp only [isReturn]
  obtain ⟨vs, _, rfl, written, last⟩ := Spelled.append_iff.mp behind
  obtain ⟨semicolon, _, isSemicolon, empty, rfl⟩ := Spelled.cons_iff.mp last
  cases empty
  refine Accepts.bind (accepts_expressionUnlessAt inside written isSemicolon rfl rfl)
    fun value' same => ?_
  refine Accepts.bindToken (Accepts.expect isSemicolon _) fun _ _ => Accepts.pure ?_
  simpa [Stmt.Same, Stmt.eraseIds, SameOption] using same

theorem readBack_block {statements : List Stmt} {opening closing : Token}
    (opens : opening.kind = .symbol .leftBrace) (h : ReadBack (.declarations statements) ts)
    (closes : closing.kind = .symbol .rightBrace) :
    ReadBack (.statement false (.block statements)) (opening :: ts ++ [closing]) := by
  intro fuel rest bound free
  simp only [List.length_cons, List.length_append, List.length_nil] at bound
  refine Accepts.bindToken (Accepts.takeIf (by rw [opens]; rfl)) ?_
  rintro _ rfl
  simp only [opens]
  refine Accepts.map (accepts_block h closes (by omega)) fun statements' same => ?_
  simpa [Stmt.Same, Stmt.eraseIds, SameStatements] using same

theorem readBack_branch {condition : Expr} {thenBranch : Stmt} (wellFormed : condition.WellFormed)
    (header : Spelled (conditionMarks .ifWord condition) us)
    (spells : Spells (.statement isOpen thenBranch) ts)
    (h : ReadBack (.statement isOpen thenBranch) ts) :
    ReadBack (.statement true (.branch condition thenBranch none)) (us ++ ts) := by
  intro fuel rest bound free
  obtain ⟨t, vs, rfl, isIf, reads⟩ := accepts_condition .ifOpening .ifClosing wellFormed header
  simp only [List.length_cons, List.length_append, List.cons_append] at bound
  refine Accepts.bindToken (Accepts.takeIf (by rw [isIf]; rfl)) ?_
  rintro _ rfl
  simp only [isIf, ifRule_eq]
  refine reads fun condition' same => ?_
  refine Accepts.bindLast (accepts_statementAt spells h (by omega) fun _ => free rfl)
    fun thenBranch' same' => ?_
  refine Accepts.bindNothing (Q := (· = none)) ?_ ?_
  · refine Accepts.bindNothing (Accepts.accepts_not (free rfl)) ?_
    rintro _ rfl
    exact Accepts.pure rfl
  · rintro _ rfl
    refine Accepts.pure ?_
    simp only [Stmt.Same, Stmt.eraseIds, Expr.Same] at same same' ⊢
    rw [same, same']

theorem readBack_branchElse {condition : Expr} {thenBranch elseBranch : Stmt} {elseToken : Token}
    {vs : List Token} (wellFormed : condition.WellFormed)
    (header : Spelled (conditionMarks .ifWord condition) us)
    (spells : Spells (.statement false thenBranch) ts)
    (h : ReadBack (.statement false thenBranch) ts) (isElse : elseToken.kind = .symbol .elseWord)
    (spells' : Spells (.statement isOpen elseBranch) vs)
    (h' : ReadBack (.statement isOpen elseBranch) vs) :
    ReadBack (.statement isOpen (.branch condition thenBranch (some elseBranch)))
      (us ++ ts ++ elseToken :: vs) := by
  intro fuel rest bound free
  obtain ⟨t, ws, rfl, isIf, reads⟩ := accepts_condition .ifOpening .ifClosing wellFormed header
  simp only [List.length_cons, List.length_append, List.cons_append, List.append_assoc] at bound ⊢
  refine Accepts.bindToken (Accepts.takeIf (by rw [isIf]; rfl)) ?_
  rintro _ rfl
  simp only [isIf, ifRule_eq]
  refine reads fun condition' same => ?_
  refine Accepts.bind (accepts_statementAt spells h (by omega) nofun) fun thenBranch' same' => ?_
  refine Accepts.bindLast (Q := fun s => ∃ elseBranch', s = some elseBranch' ∧
    elseBranch.Same elseBranch') ?_ ?_
  · refine Accepts.bindToken (Accepts.accepts isElse) ?_
    rintro _ rfl
    exact Accepts.map (accepts_statementAt spells' h' (by omega) free)
      fun elseBranch' same'' => ⟨elseBranch', rfl, same''⟩
  · rintro _ ⟨elseBranch', rfl, same''⟩
    refine Accepts.pure ?_
    simp only [Stmt.Same, Stmt.eraseIds, Expr.Same] at same same' same'' ⊢
    rw [same, same', same'']

theorem readBack_loop {condition : Expr} {body : Stmt} (wellFormed : condition.WellFormed)
    (header : Spelled (conditionMarks .whileWord condition) us)
    (spells : Spells (.statement isOpen body) ts) (h : ReadBack (.statement isOpen body) ts) :
    ReadBack (.statement isOpen (.loop condition body)) (us ++ ts) := by
  intro fuel rest bound free
  obtain ⟨t, vs, rfl, isWhile, reads⟩ :=
    accepts_condition .whileOpening .whileClosing wellFormed header
  simp only [List.length_cons, List.length_append, List.cons_append] at bound
  refine Accepts.bindToken (Accepts.takeIf (by rw [isWhile]; rfl)) ?_
  rintro _ rfl
  simp only [isWhile]
  refine reads fun condition' same => ?_
  refine Accepts.bindLast (accepts_statementAt spells h (by omega) free) fun body' same' => ?_
  refine Accepts.pure ?_
  simp only [Stmt.Same, Stmt.eraseIds, Expr.Same] at same same' ⊢
  rw [same, same']

theorem same_forLoop {initializer initializer' : Option Stmt}
    {condition condition' increment increment' : Option Expr} {body body' : Stmt}
    (first : initializer'.map Stmt.eraseIds = initializer.map Stmt.eraseIds)
    (tests : SameOption condition condition') (steps : SameOption increment increment')
    (inside : body.Same body') :
    (Stmt.forLoop initializer condition increment body).Same
      (.forLoop initializer' condition' increment' body') := by
  have test : (condition'.getD (.literal (.bool true))).eraseIds =
      (condition.getD (.literal (.bool true))).eraseIds := by
    cases condition <;> cases condition' <;> simp_all [SameOption]
  simp only [Stmt.Same, SameOption] at *
  cases initializer <;> cases initializer' <;> cases increment <;> cases increment' <;>
    simp_all [Stmt.forLoop, Stmt.eraseIds, Stmt.eraseAllIds]

theorem readBack_forLoop {initializer : Option Stmt} {condition increment : Option Expr}
    {body : Stmt} (initializes : ∀ s ∈ initializer, s.IsInitializer ∧ s.WellFormed)
    (tests : ∀ e ∈ condition, e.WellFormed) (steps : ∀ e ∈ increment, e.WellFormed)
    (header : Spelled (forHeader initializer condition increment) us)
    (spells : Spells (.statement isOpen body) ts) (h : ReadBack (.statement isOpen body) ts) :
    ReadBack (.statement isOpen (.forLoop initializer condition increment body)) (us ++ ts) := by
  intro fuel rest bound free
  obtain ⟨t, ws, isFor, behind, rfl⟩ := Spelled.cons_iff.mp header
  obtain ⟨opening, vs, isOpening, further, rfl⟩ := Spelled.cons_iff.mp behind
  obtain ⟨xs, _, rfl, front, last⟩ := Spelled.append_iff.mp further
  obtain ⟨closing, _, isClosing, empty, rfl⟩ := Spelled.cons_iff.mp last
  cases empty
  obtain ⟨ys, _, rfl, before, second⟩ := Spelled.append_iff.mp front
  obtain ⟨semicolon, ns, isSemicolon, increments, rfl⟩ := Spelled.cons_iff.mp second
  obtain ⟨is, cs, rfl, first, conditions⟩ := Spelled.append_iff.mp before
  have kind : t.kind = .symbol .forWord := isFor
  simp only [List.length_cons, List.length_append, List.cons_append, List.append_assoc,
    List.nil_append] at bound ⊢
  refine Accepts.bindToken (Accepts.takeIf (by rw [kind]; rfl)) ?_
  rintro _ rfl
  simp only [kind]
  refine Accepts.bindToken (Accepts.expect isOpening _) fun _ _ => ?_
  refine Accepts.bind (accepts_forInitializer initializes first) fun initializer' same => ?_
  refine Accepts.bind (accepts_expressionUnlessAt tests conditions isSemicolon rfl rfl)
    fun condition' same' => ?_
  refine Accepts.bindToken (Accepts.expect isSemicolon _) fun _ _ => ?_
  refine Accepts.bind (accepts_expressionUnlessAt steps increments isClosing rfl rfl)
    fun increment' same'' => ?_
  refine Accepts.bindToken (Accepts.expect isClosing _) fun _ _ => ?_
  refine Accepts.bindLast (accepts_statementAt spells h (by omega) free) fun body' inside => ?_
  exact Accepts.pure (same_forLoop same same' same'' inside)

theorem readBack_statement {s : Stmt} (spells : Spells (.statement isOpen s) ts)
    (h : ReadBack (.statement isOpen s) ts) : ReadBack (.declaration s) ts := by
  intro fuel rest bound free
  refine Accepts.bindNothing (Accepts.takeIf_none ?_) ?_
  · obtain ⟨t, us, rfl, begins⟩ := spells.statement_starts
    rintro _ ⟨⟩
    by_contra other
    revert begins other
    cases t.kind with
    | symbol fixed => cases fixed <;> decide
    | identifier | string | number | endOfInput => simp [isOneOf]
  · rintro _ rfl
    exact h fuel rest bound fun _ => free

theorem readBack_var {name : Token} {initializer : Option Expr}
    (wellFormed : (Stmt.var name initializer).WellFormed)
    (spelled : Spelled (Stmt.var name initializer).marks ts) :
    ReadBack (.declaration (.var name initializer)) ts := by
  intro fuel rest bound free
  obtain ⟨word, us, isVar, -, rfl⟩ := Spelled.cons_iff.mp spelled
  have kind : word.kind = .symbol .varWord := isVar
  refine Accepts.bindToken (Accepts.takeIf (by rw [kind]; rfl)) ?_
  rintro _ rfl
  simp only [kind]
  exact accepts_varRule wellFormed spelled

theorem readBack_funDecl {d : FunctionDecl} {word : Token} (isFun : word.kind = .symbol .funWord)
    (h : ReadBack (.function d) ts) : ReadBack (.declaration (.function d)) (word :: ts) := by
  intro fuel rest bound free
  refine Accepts.bindToken (Accepts.takeIf (by rw [isFun]; rfl)) ?_
  rintro _ rfl
  simp only [isFun]
  refine Accepts.map (h .function fuel rest (Nat.le_of_succ_le_succ bound)) fun d' same => ?_
  simpa [Stmt.Same, Stmt.eraseIds, SameFunction] using same

theorem readBack_classDecl {name : Token} {superclass : Option Expr} {methods : List FunctionDecl}
    {closing : Token} (isName : name.kind = .identifier)
    (inherits : ∀ e ∈ superclass, Stmt.IsSuperclass e)
    (header : Spelled (classHeader name superclass) us) (h : ReadBack (.methods methods) ts)
    (closes : closing.kind = .symbol .rightBrace) :
    ReadBack (.declaration (.classDecl name superclass methods)) (us ++ ts ++ [closing]) := by
  intro fuel rest bound free
  obtain ⟨word, ws, isClass, behind, rfl⟩ := Spelled.cons_iff.mp header
  obtain ⟨_, vs, rfl, further, rfl⟩ := Spelled.cons_iff.mp behind
  obtain ⟨cs, _, rfl, clause, last⟩ := Spelled.append_iff.mp further
  obtain ⟨brace, _, isBrace, empty, rfl⟩ := Spelled.cons_iff.mp last
  cases empty
  have kind : word.kind = .symbol .classWord := isClass
  simp only [List.length_cons, List.length_append, List.cons_append, List.append_assoc,
    List.nil_append] at bound ⊢
  refine Accepts.bindToken (Accepts.takeIf (by rw [kind]; rfl)) ?_
  rintro _ rfl
  simp only [kind]
  refine Accepts.bindToken (Accepts.expectName isName _) ?_
  rintro _ rfl
  refine Accepts.bind (accepts_superclassClause inherits clause isBrace) fun superclass' same => ?_
  refine Accepts.bindToken (Accepts.expect isBrace _) fun _ _ => ?_
  refine Accepts.bindNothing Accepts.remaining ?_
  rintro _ rfl
  refine Accepts.bind (h fuel _ _ (by omega) (by simp) (by simp [closes])) fun methods' same' => ?_
  refine Accepts.bindToken (Accepts.expect closes _) fun _ _ => Accepts.pure ?_
  simp only [Stmt.Same, Stmt.eraseIds, SameOption, SameMethods] at same same' ⊢
  rw [same, same']

theorem readBack_none : ReadBack (.declarations []) [] := by
  intro closes fuel spare rest s _ _ _ stops start
  have atEnd : ∀ t ∈ s.rest.head?, closes t.kind = true := by
    rw [start]
    exact stops
  exact ⟨[], s, declarations_stop atEnd, start, rfl, rfl⟩

theorem noElse_of_follows {ss : List Stmt} (spells : Spells (.declarations ss) us)
    (behind : NoElse rest) : NoElse (us ++ rest) := by
  cases spells with
  | none => exact behind
  | more first _ =>
    obtain ⟨t, vs, rfl, begins⟩ := first.declaration_starts
    rintro _ ⟨⟩ isElse
    rw [isElse] at begins
    cases begins

theorem readBack_more {s : Stmt} {ss : List Stmt} (spells : Spells (.declaration s) ts)
    (spells' : Spells (.declarations ss) us) (h : ReadBack (.declaration s) ts)
    (h' : ReadBack (.declarations ss) us) : ReadBack (.declarations (s :: ss)) (ts ++ us) := by
  intro closes fuel spare rest state enough enough' brace stops start
  simp only [List.length_append] at enough enough'
  rw [List.append_assoc] at start
  obtain ⟨s', state₁, run, hrest, herrors, same⟩ := declarationAt_ok spells h
    (show ts.length ≤ fuel.length by omega)
    (noElse_of_follows spells' fun t found isElse =>
      nomatch (brace t.kind (stops t found)).symm.trans isElse) start
  obtain ⟨t, vs, rfl, begins⟩ := spells.declaration_starts
  simp only [List.length_cons] at enough enough'
  obtain ⟨_, spare, rfl⟩ :=
    List.exists_cons_of_length_pos (show 0 < spare.length by omega)
  simp only [List.length_cons] at enough'
  obtain ⟨ss', state₂, run', hrest', herrors', same'⟩ :=
    h' closes fuel spare rest state₁ (by omega) (by omega) brace stops hrest
  refine ⟨s' :: ss', state₂, ?_, hrest', herrors'.trans herrors, ?_⟩
  · have goesOn : closes t.kind = false := by
      by_contra other
      rw [brace t.kind (by simpa using other)] at begins
      cases begins
    rw [declarations_cons start goesOn, run, run']
    rfl
  · simp only [SameStatements, Stmt.eraseAllIds, Stmt.Same] at same same' ⊢
    rw [same, same']

theorem readBack_function {name : Token} {params : List Token} {body : List Stmt} {closing : Token}
    (isName : name.kind = .identifier) (fits : params.length ≤ maxEntries)
    (areNames : ∀ param ∈ params, param.kind = .identifier)
    (header : Spelled (functionHeader name params) us) (h : ReadBack (.declarations body) ts)
    (closes : closing.kind = .symbol .rightBrace) :
    ReadBack (.function ⟨name, params, body⟩) (us ++ ts ++ [closing]) := by
  intro kind fuel rest bound
  obtain ⟨_, ws, rfl, behind, rfl⟩ := Spelled.cons_iff.mp header
  obtain ⟨opening, vs, isOpening, further, rfl⟩ := Spelled.cons_iff.mp behind
  obtain ⟨ps, _, rfl, written, last⟩ := Spelled.append_iff.mp further
  obtain ⟨right, _, isRight, last', rfl⟩ := Spelled.cons_iff.mp last
  obtain ⟨brace, _, isBrace, empty, rfl⟩ := Spelled.cons_iff.mp last'
  cases empty
  simp only [List.length_cons, List.length_append, List.cons_append, List.append_assoc,
    List.nil_append] at bound ⊢
  have each : ∀ param ∈ params, ReadsEntry (expectName .paramName)
      (fun param => [Mark.exactly param]) Eq ps.length param := by
    intro param member us t rest spelled _ _
    obtain ⟨_, _, rfl, empty, rfl⟩ := Spelled.cons_iff.mp spelled
    cases empty
    exact ⟨(Accepts.expectName (areNames _ member) _).weaken fun _ => Eq.symm, _, rfl,
      by simp [areNames _ member]⟩
  refine Accepts.bindToken (Accepts.expectName isName _) ?_
  rintro _ rfl
  refine Accepts.bindToken (Accepts.expect isOpening _) fun _ _ => ?_
  refine Accepts.bind (accepts_entries .tooManyParams isRight each fits (Nat.le_refl _) written)
    fun params' same => ?_
  obtain rfl : params = params' := by simpa using same
  refine Accepts.bindToken (Accepts.expect isRight _) fun _ _ => ?_
  refine Accepts.bindToken (Accepts.expect isBrace _) fun _ _ => ?_
  refine Accepts.bindLast (accepts_block h closes (by omega)) fun body' same' => Accepts.pure ?_
  simpa [SameFunction, Stmt.eraseFunctionIds, SameStatements] using same'

theorem readBack_noMethods : ReadBack (.methods []) [] := by
  intro fuel spare rest _ _ stops
  cases spare with
  | nil => exact Accepts.pure rfl
  | cons _ spare =>
    refine Accepts.bindNothing Accepts.next? ?_
    rintro _ rfl
    cases rest with
    | nil => exact Accepts.pure rfl
    | cons t rest =>
      simp only [List.nil_append, List.head?_cons, stops t rfl, beq_self_eq_true, if_true]
      exact Accepts.pure rfl

theorem readBack_moreMethods {d : FunctionDecl} {ds : List FunctionDecl}
    (spells : Spells (.function d) ts) (h : ReadBack (.function d) ts)
    (h' : ReadBack (.methods ds) us) : ReadBack (.methods (d :: ds)) (ts ++ us) := by
  intro fuel spare rest enough enough' stops
  obtain ⟨t, vs, rfl, isName⟩ : ∃ t vs, ts = t :: vs ∧ t.kind = .identifier := by
    cases spells with
    | function isName _ _ header =>
      obtain ⟨_, ws, rfl, -, rfl⟩ := Spelled.cons_iff.mp header
      exact ⟨_, _, rfl, isName⟩
  simp only [List.length_append, List.length_cons] at enough enough'
  obtain ⟨_, spare, rfl⟩ := List.exists_cons_of_length_pos (show 0 < spare.length by omega)
  simp only [List.length_cons] at enough'
  refine Accepts.bindNothing Accepts.next? ?_
  rintro _ rfl
  simp only [List.cons_append, List.head?_cons, isName, beq_iff_eq, reduceCtorEq, if_false]
  refine Accepts.bind (h .method fuel _ (by simp only [List.length_cons]; omega)) fun d' same => ?_
  refine Accepts.bindLast (h' fuel spare rest (by omega) (by omega) stops) fun ds' same' => ?_
  refine Accepts.pure ?_
  simp only [SameMethods, Stmt.eraseMethodIds, SameFunction] at same same' ⊢
  rw [same, same']

theorem readBack_of_spells {form : Form} (h : Spells form ts) : ReadBack form ts := by
  induction h with
  | expression wellFormed spelled => exact readBack_expression wellFormed spelled
  | print wellFormed spelled => exact readBack_print wellFormed spelled
  | ret wellFormed spelled => exact readBack_ret wellFormed spelled
  | block opens _ closes ih => exact readBack_block opens ih closes
  | branch wellFormed header spells ih => exact readBack_branch wellFormed header spells ih
  | branchElse wellFormed header spells isElse spells' ih ih' =>
    exact readBack_branchElse wellFormed header spells ih isElse spells' ih'
  | loop wellFormed header spells ih => exact readBack_loop wellFormed header spells ih
  | forLoop initializes tests steps header spells ih =>
    exact readBack_forLoop initializes tests steps header spells ih
  | statement spells ih => exact readBack_statement spells ih
  | var wellFormed spelled => exact readBack_var wellFormed spelled
  | funDecl isFun _ ih => exact readBack_funDecl isFun ih
  | classDecl isName inherits header _ closes ih =>
    exact readBack_classDecl isName inherits header ih closes
  | none => exact readBack_none
  | more spells spells' ih ih' => exact readBack_more spells spells' ih ih'
  | function isName fits areNames header _ closes ih =>
    exact readBack_function isName fits areNames header ih closes
  | noMethods => exact readBack_noMethods
  | moreMethods spells _ ih ih' => exact readBack_moreMethods spells ih ih'

end Parser

end Lox
