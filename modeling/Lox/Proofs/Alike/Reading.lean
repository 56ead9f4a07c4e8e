import Lox.Parser.Statement
import Lox.Proofs.Alike.Steps
import Lox.Proofs.Alike.Trees

namespace Lox

variable {M : Matching}

structure ParseError.Like (lines : Lines) (e e' : ParseError) : Prop where
  cause : e'.cause = e.cause
  token : e.token.Like lines e'.token

theorem ParseError.Like.eq {e e' : ParseError} (h : e.Like .still e') : e = e' := by
  obtain ⟨cause, token⟩ := h
  cases e
  cases e'
  exact (ParseError.mk.injEq ..).mpr ⟨cause.symm, token.eq.symm⟩

namespace Parser

structure State.Like (M : Matching) (s s' : State) : Prop where
  rest : List.Forall₂ (Token.Like M) s.rest s'.rest
  last : s.last.Like M s'.last
  errors : List.Forall₂ (ParseError.Like M) s.errors s'.errors

variable {s s' : State} {α α' : Type} {V : α → α' → Prop}

theorem State.Like.blamed (h : s.Like M s') : s.blamed.Like M s'.blamed := by
  obtain ⟨rest, last, -⟩ := h
  simp only [State.blamed]
  generalize s.rest = ts at rest
  generalize s'.rest = ts' at rest
  cases rest with
  | nil => exact last
  | cons first _ => exact first

theorem State.Like.record {e e' : ParseError} (h : s.Like M s') (error : e.Like M e') :
    (s.record e).Like M (s'.record e') :=
  ⟨h.rest, h.last, List.rel_append h.errors (.cons error .nil)⟩

/-- Two rules that do the same on alike tokens. -/
abbrev Alike (M : Matching) (V : α → α' → Prop) (p : Parser α) (p' : Parser α') : Prop :=
  Parallel (State.Like M) (ParseError.Like M) V p p'

namespace Alike

theorem fail (cause : ParseError.Cause) :
    Alike M V (Parser.fail cause) (Parser.fail cause) :=
  fun _ _ state => .error ⟨rfl, state.blamed⟩ state

theorem report (cause : ParseError.Cause) {t t' : Token} (token : t.Like M t') :
    Alike M Eq (Parser.report cause t) (Parser.report cause t') :=
  fun _ _ state => .ok rfl (state.record ⟨rfl, token⟩)

theorem reportHere (cause : ParseError.Cause) :
    Alike M Eq (Parser.reportHere cause) (Parser.reportHere cause) :=
  fun _ _ state => .ok rfl (state.record ⟨rfl, state.blamed⟩)

theorem freshId : Alike M (fun _ _ => True) Parser.freshId Parser.freshId :=
  fun _ _ state => .ok trivial ⟨state.rest, state.last, state.errors⟩

theorem remaining : Alike M (List.Forall₂ (Token.Like M)) Parser.remaining Parser.remaining :=
  fun _ _ state => .ok state.rest state

theorem next? : Alike M (Option.Rel (Token.Like M)) Parser.next? Parser.next? := by
  intro s s' state
  refine .ok ?_ state
  have rest := state.rest
  generalize s.rest = ts at rest
  generalize s'.rest = ts' at rest
  cases rest with
  | nil => exact .none
  | cons first _ => exact .some first

theorem skip : Alike M Eq Parser.skip Parser.skip := by
  intro s s' state
  refine .ok rfl ⟨?_, state.last, state.errors⟩
  have rest := state.rest
  generalize s.rest = ts at rest
  generalize s'.rest = ts' at rest
  cases rest with
  | nil => exact .nil
  | cons _ others => exact others

theorem takeIf (q : Kind → Bool) :
    Alike M (Option.Rel (Token.Like M)) (Parser.takeIf q) (Parser.takeIf q) := by
  rintro ⟨ts, last, id, errors⟩ ⟨ts', last', id', errors'⟩ ⟨rest, last_like, errors_like⟩
  cases rest with
  | nil => exact .ok .none ⟨.nil, last_like, errors_like⟩
  | @cons t t' rest rest' first others =>
    simp only [Parser.takeIf, first.kind]
    split
    · exact .ok (.some first) ⟨others, last_like, errors_like⟩
    · exact .ok .none ⟨.cons first others, last_like, errors_like⟩

theorem takeWhile_like (q : Kind → Bool) {ts ts' : List Token}
    (h : List.Forall₂ (Token.Like M) ts ts') :
    List.Forall₂ (Token.Like M) (ts.takeWhile fun t => q t.kind)
        (ts'.takeWhile fun t => q t.kind) ∧
      List.Forall₂ (Token.Like M) (ts.dropWhile fun t => q t.kind)
        (ts'.dropWhile fun t => q t.kind) := by
  induction h with
  | nil => exact ⟨.nil, .nil⟩
  | @cons t t' ts ts' first others ih =>
    simp only [List.takeWhile_cons, List.dropWhile_cons, first.kind]
    split
    · exact ⟨.cons first ih.1, ih.2⟩
    · exact ⟨.nil, .cons first others⟩

theorem takeWhile (q : Kind → Bool) :
    Alike M (List.Forall₂ (Token.Like M)) (Parser.takeWhile q) (Parser.takeWhile q) := by
  intro s s' state
  obtain ⟨taken, rest⟩ := takeWhile_like q state.rest
  exact .ok taken ⟨rest, state.last, state.errors⟩

theorem accepts (symbol : Symbol) :
    Alike M Eq (Parser.accepts symbol) (Parser.accepts symbol) := by
  refine (takeIf _).bind fun found found' like => .pure ?_
  cases like <;> rfl

theorem isAt (symbol : Symbol) : Alike M Eq (Parser.isAt symbol) (Parser.isAt symbol) := by
  refine next?.bind fun found found' like => .pure ?_
  cases like with
  | none => rfl
  | some token => simp only [Option.any_some, token.kind]

theorem expectIf (q : Kind → Bool) (cause : ParseError.Cause) :
    Alike M (Token.Like M) (Parser.expectIf q cause) (Parser.expectIf q cause) := by
  refine (takeIf q).bind fun found found' like => ?_
  cases like with
  | none => exact fail cause
  | some token => exact .pure token

theorem expect (symbol : Symbol) (cause : ParseError.Cause) :
    Alike M (Token.Like M) (Parser.expect symbol cause) (Parser.expect symbol cause) :=
  expectIf _ cause

theorem expectName (cause : ParseError.Cause) :
    Alike M (Token.Like M) (Parser.expectName cause) (Parser.expectName cause) :=
  expectIf _ cause

theorem behind {γ γ' : Type} {U : γ → γ' → Prop} {p : Parser γ} {p' : Parser γ'} {q : Parser α}
    {q' : Parser α'} (first : Alike M U p p') (second : Alike M V q q') :
    Alike M V (do let _ ← p; q) (do let _ ← p'; q') :=
  first.bind fun _ _ _ => second

section Entries

variable {entry : Parser α} {entry' : Parser α'} (each : Alike M V entry entry')
include each

theorem moreEntries (overflow : ParseError.Cause) {fuel fuel' : List Token}
    (same : List.Forall₂ (Token.Like M) fuel fuel') (count : Nat) :
    Alike M (List.Forall₂ V) (Parser.moreEntries entry overflow fuel count)
      (Parser.moreEntries entry' overflow fuel' count) := by
  induction same generalizing count with
  | nil => exact .pure .nil
  | @cons _ _ fuel fuel' _ _ ih =>
    refine (accepts .comma).bind fun found found' same => .ite same.symm ?_ (.pure .nil)
    have behind' : Alike M (List.Forall₂ V)
        (do
          let first ← entry
          let others ← Parser.moreEntries entry overflow fuel (count + 1)
          pure (first :: others))
        (do
          let first ← entry'
          let others ← Parser.moreEntries entry' overflow fuel' (count + 1)
          pure (first :: others)) :=
      each.bind fun first first' like => (ih (count + 1)).bind fun others others' all =>
        .pure (.cons like all)
    -- One entry too many is reported, and read all the same.
    dsimp only
    by_cases full : maxEntries ≤ count
    · simp only [if_pos full]
      exact (reportHere overflow).behind behind'
    · simp only [if_neg full]
      exact behind'

theorem entries (overflow : ParseError.Cause) :
    Alike M (List.Forall₂ V) (Parser.entries entry overflow) (Parser.entries entry' overflow) := by
  refine (isAt _).bind fun found found' same => .ite same.symm (.pure .nil) ?_
  exact each.bind fun first first' like => remaining.bind fun fuel fuel' all =>
    (moreEntries each overflow all 1).bind fun others others' likes => .pure (.cons like likes)

end Entries

end Alike

section Expressions

variable (any : ∀ id id', M.ids id id') {nested nested' : Parser Expr}
include any

theorem alike_primary (inner : Alike M (Expr.Like M) nested nested') :
    Alike M (Expr.Like M) (primary nested) (primary nested') := by
  refine Alike.next?.bind fun found found' like => ?_
  cases like with
  | none => exact Alike.fail _
  | @some token token' like =>
    have literal (value : Literal) : Alike M (Expr.Like M)
        (do skip; pure (.literal value)) (do skip; pure (.literal value)) :=
      Alike.skip.behind (.pure (.literal value))
    dsimp only
    rw [like.kind]
    split
    case h_1 => exact literal _
    case h_2 => exact literal _
    case h_3 => exact literal _
    case h_4 => exact literal _
    case h_5 => exact literal _
    case h_6 =>
      exact Alike.skip.behind <| (Alike.expect _ _).behind <| (Alike.expectName _).bind
        fun method method' name => Alike.freshId.bind fun id id' _ =>
          .pure (.super (any id id') like name)
    case h_7 =>
      exact Alike.skip.behind <| Alike.freshId.bind fun id id' _ => .pure (.this (any id id') like)
    case h_8 =>
      exact Alike.skip.behind <| Alike.freshId.bind fun id id' _ => .pure (.var (any id id') like)
    case h_9 =>
      exact Alike.skip.behind <| inner.bind fun e e' inside =>
        (Alike.expect _ _).behind (.pure (.grouping inside))
    case h_10 => exact Alike.fail _

omit any in
theorem allLike_of_forall₂ {es es' : List Expr} (h : List.Forall₂ (Expr.Like M) es es') :
    Expr.AllLike M es es' := by
  induction h with
  | nil => exact .nil
  | cons first _ ih => exact .cons first ih

omit any in
theorem alike_calls (inner : Alike M (Expr.Like M) nested nested') {fuel fuel' : List Token}
    (same : List.Forall₂ (Token.Like M) fuel fuel') {callee callee' : Expr}
    (first : callee.Like M callee') :
    Alike M (Expr.Like M) (calls nested fuel callee) (calls nested' fuel' callee') := by
  induction same generalizing callee callee' with
  | nil => exact .pure first
  | cons _ _ ih =>
    refine (Alike.takeIf _).bind fun found found' like => ?_
    cases like with
    | none => exact .pure first
    | @some token token' like =>
      refine .ite (by rw [like.kind]) ?_ ?_
      · exact (Alike.expectName _).bind fun name name' named => ih (.get first named)
      · exact (Alike.entries inner _).bind fun arguments arguments' all =>
          (Alike.expect _ _).bind fun paren paren' closing =>
            ih (.call first closing (allLike_of_forall₂ all))

theorem alike_call (inner : Alike M (Expr.Like M) nested nested') :
    Alike M (Expr.Like M) (call nested) (call nested') :=
  (alike_primary any inner).bind fun _ _ first => Alike.remaining.bind fun _ _ same =>
    alike_calls inner same first

theorem alike_unary (inner : Alike M (Expr.Like M) nested nested') :
    Alike M (Expr.Like M) (unary nested) (unary nested') := by
  refine (Alike.takeWhile _).bind fun operators operators' tokens =>
    (alike_call any inner).bind fun operand operand' inside => .pure ?_
  induction tokens with
  | nil => exact inside
  | cons token _ ih => exact .unary token ih

omit any in
theorem alike_leftAssociative {node : Expr → Token → Expr → Expr} {operators : List Symbol}
    {operand operand' : Parser Expr} (each : Alike M (Expr.Like M) operand operand')
    (grow : ∀ {left left' operator operator' right right'}, left.Like M left' →
      operator.Like M operator' → right.Like M right' →
        (node left operator right).Like M (node left' operator' right')) :
    Alike M (Expr.Like M) (leftAssociative node operators operand)
      (leftAssociative node operators operand') := by
  have chain {fuel fuel' : List Token} (same : List.Forall₂ (Token.Like M) fuel fuel')
      {left left' : Expr} (first : left.Like M left') :
      Alike M (Expr.Like M) (chain node operators operand fuel left)
        (chain node operators operand' fuel' left') := by
    induction same generalizing left left' with
    | nil => exact .pure first
    | cons _ _ ih =>
      refine (Alike.takeIf _).bind fun found found' like => ?_
      cases like with
      | none => exact .pure first
      | some token => exact each.bind fun right right' second => ih (grow first token second)
  exact each.bind fun _ _ first => Alike.remaining.bind fun _ _ same => chain same first

theorem alike_disjunction (inner : Alike M (Expr.Like M) nested nested') :
    Alike M (Expr.Like M) (disjunction nested) (disjunction nested') := by
  have factors : Alike M (Expr.Like M) (factor nested) (factor nested') :=
    alike_leftAssociative (alike_unary any inner) .binary
  have terms : Alike M (Expr.Like M) (term nested) (term nested') :=
    alike_leftAssociative factors .binary
  have comparisons : Alike M (Expr.Like M) (comparison nested) (comparison nested') :=
    alike_leftAssociative terms .binary
  have equalities : Alike M (Expr.Like M) (equality nested) (equality nested') :=
    alike_leftAssociative comparisons .binary
  have conjunctions : Alike M (Expr.Like M) (conjunction nested) (conjunction nested') :=
    alike_leftAssociative equalities .logical
  exact alike_leftAssociative conjunctions .logical

theorem alike_assignTo {target target' value value' : Expr} {equals equals' : Token}
    (first : target.Like M target') (token : equals.Like M equals') (second : value.Like M value') :
    Alike M (Expr.Like M) (assignTo target equals value) (assignTo target' equals' value') := by
  cases first with
  | var _ name => exact Alike.freshId.bind fun id id' _ => .pure (.assign (any id id') name second)
  | get object name => exact .pure (.set object name second)
  | _ => exact (Alike.report _ token).behind (.pure (by constructor <;> assumption))

theorem alike_assignment (inner : Alike M (Expr.Like M) nested nested') :
    Alike M (Expr.Like M) (assignment nested) (assignment nested') := by
  refine (alike_disjunction any inner).bind fun target target' first =>
    (Alike.takeIf _).bind fun found found' like => ?_
  cases like with
  | none => exact .pure first
  | some token => exact inner.bind fun value value' second => alike_assignTo any first token second

theorem alike_expression : Alike M (Expr.Like M) expression expression := by
  refine Alike.remaining.bind fun fuel fuel' same => ?_
  -- The fuel is the tokens that remain, so there is as much of it on either side.
  induction same with
  | nil => exact Alike.fail _
  | cons _ _ ih => exact alike_assignment any ih

end Expressions

def DeclarationAlike (M : Matching) (declaration declaration' : StateM State (Option Stmt)) :
    Prop :=
  ∀ s s', s.Like M s' →
    Option.Rel (Stmt.Like M) (declaration s).1 (declaration' s').1 ∧
      (declaration s).2.Like M (declaration' s').2

theorem resume_like {previous previous' : Token} (before : previous.Like M previous')
    {ts ts' : List Token} (h : List.Forall₂ (Token.Like M) ts ts') :
    List.Forall₂ (Token.Like M) (resume previous ts) (resume previous' ts') := by
  induction h generalizing previous previous' with
  | nil => exact .nil
  | cons first others ih =>
    simp only [resume, before.kind, first.kind]
    split
    · exact .cons first others
    · exact ih first

theorem State.Like.synchronize (h : s.Like M s') :
    (synchronize s).Like M (synchronize s') := by
  obtain ⟨ts, last, id, errors⟩ := s
  obtain ⟨ts', last', id', errors'⟩ := s'
  obtain ⟨rest, last_like, errors_like⟩ := h
  cases rest with
  | nil => exact ⟨.nil, last_like, errors_like⟩
  | cons first others => exact ⟨resume_like first others, last_like, errors_like⟩

theorem DeclarationAlike.recover {rule rule' : Parser Stmt} (h : Alike M (Stmt.Like M) rule rule') :
    DeclarationAlike M (recover rule) (recover rule') := by
  intro s s' state
  have ends := h s s' state
  simp only [Parser.recover]
  generalize rule s = result at ends
  generalize rule' s' = result' at ends
  cases ends with
  | ok like state => exact ⟨.some like, state⟩
  | error reason state => exact ⟨.none, (state.record reason).synchronize⟩

section Declarations

variable {declaration declaration' : StateM State (Option Stmt)}
  (each : DeclarationAlike M declaration declaration')
include each

theorem declarations_like (closes : Kind → Bool) {fuel fuel' : List Token}
    (same : List.Forall₂ (Token.Like M) fuel fuel') (state : s.Like M s') :
    Stmt.AllLike M (declarations closes declaration fuel s).1
        (declarations closes declaration' fuel' s').1 ∧
      (declarations closes declaration fuel s).2.Like M
        (declarations closes declaration' fuel' s').2 := by
  induction same generalizing s s' with
  | nil => exact ⟨.nil, state⟩
  | cons _ _ ih =>
    obtain ⟨first, behind⟩ := each s s' state
    obtain ⟨others, behind⟩ := ih behind
    have rest := state.rest
    simp only [declarations]
    generalize s.rest = ts at rest
    generalize s'.rest = ts' at rest
    cases rest with
    | nil => exact ⟨.nil, state⟩
    | cons token _ =>
      simp only [token.kind]
      split
      · exact ⟨.nil, state⟩
      · refine ⟨Stmt.AllLike.append ?_ others, behind⟩
        generalize (declaration s).1 = statement at first
        generalize (declaration' s').1 = statement' at first
        cases first with
        | none => exact .nil
        | some like => exact .cons like .nil

theorem alike_block : Alike M (Stmt.AllLike M) (block declaration) (block declaration') := by
  intro s s' state
  obtain ⟨statements, behind⟩ :=
    declarations_like each (· == .symbol .rightBrace) state.rest state
  exact (Alike.expect _ _).behind (.pure statements) _ _ behind

end Declarations

section Statements

variable {body body' : Parser (List Stmt)}

theorem alike_functionRule (kind : FunctionKind) (inside : Alike M (Stmt.AllLike M) body body') :
    Alike M (Stmt.FunctionLike M) (functionRule kind body) (functionRule kind body') :=
  (Alike.expectName _).bind fun _ _ name => (Alike.expect _ _).behind <|
    (Alike.entries (Alike.expectName _) _).bind fun _ _ params => (Alike.expect _ _).behind <|
    (Alike.expect _ _).behind <| inside.bind fun _ _ statements =>
      .pure (.mk name params statements)

theorem alike_methods (inside : Alike M (Stmt.AllLike M) body body') {fuel fuel' : List Token}
    (same : List.Forall₂ (Token.Like M) fuel fuel') :
    Alike M (Stmt.MethodsLike M) (methods body fuel) (methods body' fuel') := by
  induction same with
  | nil => exact .pure .nil
  | cons _ _ ih =>
    refine Alike.next?.bind fun found found' like => ?_
    cases like with
    | none => exact .pure .nil
    | some token =>
      refine .ite (by rw [token.kind]) (.pure .nil) ?_
      exact (alike_functionRule .method inside).bind fun _ _ first => ih.bind fun _ _ others =>
        .pure (.cons first others)

variable (any : ∀ id id', M.ids id id')
include any

theorem alike_superclassClause :
    Alike M (Expr.OptionLike M) superclassClause superclassClause :=
  (Alike.accepts _).bind fun _ _ same => .ite same.symm
    ((Alike.expectName _).bind fun _ _ name => Alike.freshId.bind fun id id' _ =>
      .pure (.some (.var (any id id') name)))
    (.pure .none)

theorem alike_classRule (inside : Alike M (Stmt.AllLike M) body body') :
    Alike M (Stmt.Like M) (classRule body) (classRule body') :=
  (Alike.expectName _).bind fun _ _ name => (alike_superclassClause any).bind
    fun _ _ superclass => (Alike.expect _ _).behind <| Alike.remaining.bind fun _ _ same =>
    (alike_methods inside same).bind fun _ _ members => (Alike.expect _ _).behind
      (.pure (.classDecl name superclass members))

theorem alike_someExpression :
    Alike M (Expr.OptionLike M) (some <$> expression) (some <$> expression) :=
  (alike_expression any).map fun _ _ => .some

theorem alike_expressionUnlessAt (symbol : Symbol) :
    Alike M (Expr.OptionLike M) (expressionUnlessAt symbol) (expressionUnlessAt symbol) :=
  (Alike.isAt _).bind fun _ _ same => .ite same.symm (.pure .none) (alike_someExpression any)

theorem alike_varRule : Alike M (Stmt.Like M) varRule varRule := by
  rw [varRule_eq]
  have initializerClause : Alike M (Expr.OptionLike M) initializerClause initializerClause :=
    (Alike.accepts _).bind fun _ _ same => .ite same.symm (alike_someExpression any) (.pure .none)
  exact (Alike.expectName _).bind fun _ _ name => initializerClause.bind
    fun _ _ initializer => (Alike.expect _ _).behind (.pure (.var name initializer))

theorem alike_expressionRule : Alike M (Stmt.Like M) expressionRule expressionRule :=
  (alike_expression any).bind fun _ _ value => (Alike.expect _ _).behind (.pure (.expression value))

theorem alike_printRule : Alike M (Stmt.Like M) printRule printRule :=
  (alike_expression any).bind fun _ _ value => (Alike.expect _ _).behind (.pure (.print value))

theorem alike_returnRule {keyword keyword' : Token} (token : keyword.Like M keyword') :
    Alike M (Stmt.Like M) (returnRule keyword) (returnRule keyword') :=
  (alike_expressionUnlessAt any _).bind fun _ _ value =>
    (Alike.expect _ _).behind (.pure (.ret token value))

theorem alike_forInitializer :
    Alike M (Option.Rel (Stmt.Like M)) forInitializer forInitializer :=
  (Alike.accepts _).bind fun _ _ same => .ite same.symm (.pure .none) <|
    (Alike.accepts _).bind fun _ _ same => .ite same.symm
      ((alike_varRule any).map fun _ _ => .some)
      ((alike_expressionRule any).map fun _ _ => .some)

omit any in
theorem forLoop_like {initializer initializer' : Option Stmt}
    {condition condition' increment increment' : Option Expr} {body body' : Stmt}
    (first : Option.Rel (Stmt.Like M) initializer initializer')
    (test : Expr.OptionLike M condition condition')
    (step : Expr.OptionLike M increment increment') (inside : body.Like M body') :
    (Stmt.forLoop initializer condition increment body).Like M
      (Stmt.forLoop initializer' condition' increment' body') := by
  have test' : (condition.getD (.literal (.bool true))).Like M
      (condition'.getD (.literal (.bool true))) := by
    cases test with
    | none => exact .literal _
    | some like => exact like
  have rounds {round round' : Stmt} (like : round.Like M round') :
      (Stmt.loop (condition.getD (.literal (.bool true))) round).Like M
        (.loop (condition'.getD (.literal (.bool true))) round') := .loop test' like
  have withStep {e e' : Expr} (like : e.Like M e') :
      (Stmt.block [body, .expression e]).Like M (.block [body', .expression e']) :=
    .block (.cons inside (.cons (.expression like) .nil))
  cases first with
  | none =>
    cases step with
    | none => exact rounds inside
    | some like => exact rounds (withStep like)
  | some first =>
    cases step with
    | none => exact .block (.cons first (.cons (rounds inside) .nil))
    | some like => exact .block (.cons first (.cons (rounds (withStep like)) .nil))

variable {statement statement' : Parser Stmt}

theorem alike_forRule (nested : Alike M (Stmt.Like M) statement statement') :
    Alike M (Stmt.Like M) (forRule statement) (forRule statement') :=
  (Alike.expect _ _).behind <| (alike_forInitializer any).bind fun _ _ first =>
    (alike_expressionUnlessAt any _).bind fun _ _ test => (Alike.expect _ _).behind <|
    (alike_expressionUnlessAt any _).bind fun _ _ step => (Alike.expect _ _).behind <|
    nested.bind fun _ _ inside => .pure (forLoop_like first test step inside)

theorem alike_ifRule (nested : Alike M (Stmt.Like M) statement statement') :
    Alike M (Stmt.Like M) (ifRule statement) (ifRule statement') := by
  rw [ifRule_eq, ifRule_eq]
  have elseClause : Alike M (Option.Rel (Stmt.Like M)) (elseClause statement)
      (elseClause statement') :=
    (Alike.accepts _).bind fun _ _ same =>
      .ite same.symm (nested.map fun _ _ => .some) (.pure .none)
  refine (Alike.expect _ _).behind <| (alike_expression any).bind fun _ _ test =>
    (Alike.expect _ _).behind <| nested.bind fun _ _ first =>
    elseClause.bind fun _ _ other => .pure ?_
  cases other with
  | none => exact .branch test first
  | some second => exact .branchElse test first second

theorem alike_whileRule (nested : Alike M (Stmt.Like M) statement statement') :
    Alike M (Stmt.Like M) (whileRule statement) (whileRule statement') :=
  (Alike.expect _ _).behind <| (alike_expression any).bind fun _ _ test =>
    (Alike.expect _ _).behind <| nested.bind fun _ _ inside => .pure (.loop test inside)

theorem alike_statementRule (nested : Alike M (Stmt.Like M) statement statement')
    (inside : Alike M (Stmt.AllLike M) body body') :
    Alike M (Stmt.Like M) (statementRule statement body) (statementRule statement' body') := by
  refine (Alike.takeIf _).bind fun found found' like => ?_
  cases like with
  | none => exact alike_expressionRule any
  | some token =>
    dsimp only
    rw [token.kind]
    split
    case h_1 => exact alike_forRule any nested
    case h_2 => exact alike_ifRule any nested
    case h_3 => exact alike_printRule any
    case h_4 => exact alike_returnRule any token
    case h_5 => exact alike_whileRule any nested
    case h_6 => exact inside.map fun _ _ => .block

theorem alike_declarationRule (nested : Alike M (Stmt.Like M) statement statement')
    (inside : Alike M (Stmt.AllLike M) body body') :
    Alike M (Stmt.Like M) (declarationRule statement body) (declarationRule statement' body') := by
  refine (Alike.takeIf _).bind fun found found' like => ?_
  cases like with
  | none => exact nested
  | some token =>
    dsimp only
    rw [token.kind]
    split
    case h_1 => exact alike_classRule any inside
    case h_2 => exact (alike_functionRule .function inside).map fun _ _ => .function
    case h_3 => exact alike_varRule any

theorem alike_levels {fuel fuel' : List Token} (same : List.Forall₂ (Token.Like M) fuel fuel') :
    Alike M (Stmt.Like M) (statementAt fuel) (statementAt fuel') ∧
      DeclarationAlike M (declarationAt fuel) (declarationAt fuel') := by
  induction same with
  | nil => exact ⟨Alike.fail _, .recover (Alike.fail _)⟩
  | cons _ _ ih =>
    obtain ⟨statements, declarations⟩ := ih
    have inside := alike_block declarations
    have nested := alike_statementRule any statements inside
    exact ⟨nested, .recover (alike_declarationRule any nested inside)⟩

theorem declaration_alike : DeclarationAlike M declaration declaration :=
  fun s s' state => (alike_levels any state.rest).2 s s' state

end Statements

theorem State.Like.ofTokens {tokens tokens' : List Token}
    (h : List.Forall₂ (Token.Like M) tokens tokens') (filled : tokens ≠ [])
    (firstId firstId' : Nat) :
    (State.ofTokens tokens firstId).Like M (State.ofTokens tokens' firstId') := by
  refine ⟨(Alike.takeWhile_like (fun kind => !(kind == .endOfInput)) h).1, ?_, .nil⟩
  have found : Option.Rel (Token.Like M) (tokens.find? fun t => t.kind == .endOfInput)
      (tokens'.find? fun t => t.kind == .endOfInput) := by
    clear filled
    induction h with
    | nil => exact .none
    | cons first _ ih =>
      simp only [List.find?_cons, first.kind]
      split
      · exact .some first
      · exact ih
  have last : (tokens.getLast?.getD ⟨.endOfInput, "", 1⟩).Like M
      (tokens'.getLast?.getD ⟨.endOfInput, "", 1⟩) := by
    have reversed := List.rel_reverse h
    have filled := List.reverse_ne_nil_iff.mpr filled
    simp only [List.getLast?_eq_head?_reverse]
    generalize tokens.reverse = ts at reversed filled
    generalize tokens'.reverse = ts' at reversed
    cases reversed with
    | nil => exact absurd rfl filled
    | cons first _ => exact first
  simp only [State.ofTokens]
  generalize tokens.find? (fun t => t.kind == .endOfInput) = found at *
  generalize tokens'.find? (fun t => t.kind == .endOfInput) = found' at *
  cases found with
  | none => exact last
  | some like => exact like

end Parser

/-- Alike tokens make alike programs, with any first ids, and the same errors. -/
theorem parse_like {lines : Lines} {tokens tokens' : List Token}
    (h : List.Forall₂ (Token.Like lines) tokens tokens') (filled : tokens ≠ [])
    (firstId firstId' : Nat) :
    Stmt.AllLike (.unnumbered lines) (parse tokens firstId).statements
        (parse tokens' firstId').statements ∧
      List.Forall₂ (ParseError.Like lines) (parse tokens firstId).errors
        (parse tokens' firstId').errors := by
  have start : Parser.State.Like (.unnumbered lines) _ _ := .ofTokens h filled firstId firstId'
  obtain ⟨statements, behind⟩ := Parser.declarations_like
    (Parser.declaration_alike fun _ _ => trivial) (fun _ => false) start.rest start
  exact ⟨statements, behind.errors⟩

inductive ReadAlike (lines : Lines) : Except (List ParseError) Expr →
    Except (List ParseError) Expr → Prop where
  | ok {e e' : Expr} (like : e.Like (.unnumbered lines) e') : ReadAlike lines (.ok e) (.ok e')
  | error {errors errors' : List ParseError}
    (likes : List.Forall₂ (ParseError.Like lines) errors errors') :
    ReadAlike lines (.error errors) (.error errors')

theorem Parser.alike_wholeExpression (any : ∀ id id', M.ids id id') :
    Alike M (Expr.Like M) wholeExpression wholeExpression := by
  refine (alike_expression any).bind fun e e' like => Alike.next?.bind fun next next' rest => ?_
  have same : next'.isSome = next.isSome := by cases rest <;> rfl
  exact .ite same (Alike.fail _) (.pure like)

theorem parseExpression_like {lines : Lines} {tokens tokens' : List Token}
    (h : List.Forall₂ (Token.Like lines) tokens tokens') (filled : tokens ≠ [])
    (firstId firstId' : Nat) :
    ReadAlike lines (parseExpression tokens firstId).result
      (parseExpression tokens' firstId').result := by
  have start : Parser.State.Like (.unnumbered lines) _ _ := .ofTokens h filled firstId firstId'
  have ends := Parser.alike_wholeExpression (fun _ _ => trivial) _ _ start
  simp only [parseExpression]
  generalize Parser.wholeExpression (.ofTokens tokens firstId) = read at ends
  generalize Parser.wholeExpression (.ofTokens tokens' firstId') = read' at ends
  cases ends with
  | @ok e e' s s' like state =>
    have same : s'.errors.isEmpty = s.errors.isEmpty := by
      have errors := state.errors
      generalize s.errors = errors at *
      generalize s'.errors = errors' at *
      cases errors <;> rfl
    dsimp only
    rw [same]
    split
    · exact .ok like
    · exact .error state.errors
  | error reason state => exact .error (List.rel_append state.errors (.cons reason .nil))

section Again

def ParsedExpression.erased (parsed : ParsedExpression) : Except (List ParseError) Expr :=
  parsed.result.map Expr.eraseIds

variable (tokens : List Token) (firstId firstId' : Nat)

/-- Parsing again with other ids gives the same program and the same errors. -/
theorem parse_again :
    SameStatements (parse tokens firstId).statements (parse tokens firstId').statements ∧
      (parse tokens firstId').errors = (parse tokens firstId).errors := by
  by_cases filled : tokens = []
  · subst filled
    exact ⟨rfl, rfl⟩
  · obtain ⟨statements, errors⟩ :=
      parse_like (forall₂_token_refl tokens) filled firstId firstId'
    exact ⟨statements.eraseAllIds, (eq_of_forall₂ errors fun _ _ like => like.eq).symm⟩

theorem parseExpression_again :
    (parseExpression tokens firstId').erased = (parseExpression tokens firstId).erased := by
  by_cases filled : tokens = []
  · subst filled
    rfl
  · have alike := parseExpression_like (forall₂_token_refl tokens) filled firstId firstId'
    unfold ParsedExpression.erased
    generalize (parseExpression tokens firstId).result = result at alike
    generalize (parseExpression tokens firstId').result = result' at alike
    cases alike with
    | ok like => exact congrArg Except.ok like.eraseIds
    | error likes => exact congrArg Except.error (eq_of_forall₂ likes fun _ _ like => like.eq).symm

end Again

end Lox
