import Lox.Proofs.Parser.ExpressionRuns
import Lox.Proofs.Parser.StatementIds

namespace Lox.Parser

open State

variable {ρ : Relabel} {s t : State} {n : Nat}

abbrev ConsumesBranch (ρ : Relabel) (n : Nat) (p p' : Parser Stmt) : Prop :=
  Consumes ρ n p p' fun st => st.isStatement = true ∧ st.Lawful none

abbrev ConsumesDeclaration (ρ : Relabel) (n : Nat) (p p' : Parser Stmt) : Prop :=
  Consumes ρ n p p' (Stmt.Lawful none)

/-- The rest of a block. The opening brace pays for a closing one that is missing. -/
def ConsumesBody (ρ : Relabel) (n : Nat) (body body' : Parser (List Stmt)) : Prop :=
  ∀ s t, s.IsSettled → Spends s t → t.IsReady → t.rest.length < n →
    RunsOn ρ s t body body' (Stmt.AllLawful none)

section Clauses

theorem passes_someExpression (ready : s.IsReady) :
    Passes ρ s (some <$> expression) (some <$> expression) fun o => ∀ e ∈ o, e.Lawful none :=
  (consumes_expression (s.rest.length + 1) s ready (Nat.lt_succ_self _)).map
    fun _ _ leads ⟨_, lawful⟩ => ⟨leads, fun _ found => Option.some.inj found ▸ lawful⟩

theorem passes_expressionUnlessAt (symbol : Symbol) (ready : s.IsReady) :
    Passes ρ s (expressionUnlessAt symbol) (expressionUnlessAt symbol)
      fun o => ∀ e ∈ o, e.Lawful none := by
  refine (Runs.isAt (.refl s) symbol).bind fun _ t leads same => ?_
  subst same
  exact .ite (fun _ => .pure leads ⟨leads, nofun⟩) fun _ => passes_someExpression ready

theorem passes_clause {α : Type} {symbol : Symbol} {p p' : Parser (Option α)} {P : α → Prop}
    (settled : s.IsSettled)
    (inside : ∀ t, Took s t → Passes ρ t p p' fun o => ∀ a ∈ o, P a) :
    Passes ρ s (do if ← accepts symbol then p else pure none)
      (do if ← accepts symbol then p' else pure none) fun o => ∀ a ∈ o, P a := by
  refine (Runs.accepts (.refl s) settled symbol).bind fun found t leads ⟨yes, no⟩ => ?_
  refine .ite (fun isFound => ?_) fun notFound => ?_
  · have took := yes isFound
    exact ((inside t took).since leads).weaken fun o u leads ⟨_, all⟩ => ⟨leads, all⟩
  · obtain rfl := no notFound
    exact .pure leads ⟨leads, nofun⟩

theorem passes_initializerClause (settled : s.IsSettled) :
    Passes ρ s initializerClause initializerClause fun o => ∀ e ∈ o, e.Lawful none :=
  passes_clause settled fun _ took => passes_someExpression took.ready

theorem passes_superclassClause (settled : s.IsSettled) :
    Passes ρ s superclassClause superclassClause fun o => ∀ e ∈ o, Stmt.IsSuperclass e := by
  refine passes_clause settled fun t took => ?_
  refine (Runs.expectName (.refl t) took.ready.settled (by nofun)).bind
    fun name u leads ⟨isName, took'⟩ => ?_
  refine (Runs.freshId leads).bind fun id v leads fresh => .pure leads ⟨leads, ?_⟩
  exact fun _ found => Option.some.inj found ▸ isName

theorem passes_elseClause {statement statement' : Parser Stmt}
    (nested : ConsumesBranch ρ n statement statement') (settled : s.IsSettled)
    (short : s.rest.length ≤ n) :
    Passes ρ s (elseClause statement) (elseClause statement')
      fun o => ∀ st ∈ o, st.isStatement = true ∧ st.Lawful none := by
  refine passes_clause settled fun t took => ?_
  have shorter := took.shorter
  exact (nested t took.ready (by omega)).map
    fun _ _ leads ⟨_, lawful⟩ => ⟨leads, fun _ found => Option.some.inj found ▸ lawful⟩

end Clauses

section Simple

theorem runs_varRule (ready : s.IsReady) :
    Runs ρ s s varRule varRule fun st t => Took s t ∧ st.Lawful none := by
  rw [varRule_eq]
  have start := ready.settled
  refine (Runs.expectName (.refl s) start (by nofun)).bind fun name t leads ⟨isName, took⟩ => ?_
  refine ((passes_initializerClause took.ready.settled).since leads).bind
    fun initializer u leads ⟨leads', lawful⟩ => ?_
  refine (Runs.expect leads start .semicolon (by nofun)).bind fun _ v leads took' => ?_
  exact .pure leads
    ⟨⟨(took.toSpends.further leads').further took'.leads, took'.ready⟩, isName, lawful⟩

theorem runs_expressionRule (ready : s.IsReady) :
    Runs ρ s s expressionRule expressionRule
      fun st t => Took s t ∧ st.isStatement = true ∧ st.Lawful none := by
  refine (consumes_expression (s.rest.length + 1) s ready (Nat.lt_succ_self _)).bind
    fun value t leads ⟨spends, lawful⟩ => ?_
  refine (Runs.expect leads ready.settled .semicolon (by nofun)).bind fun _ u leads took => ?_
  exact .pure leads ⟨⟨spends.further took.leads, took.ready⟩, rfl, lawful⟩

theorem consumes_varRule : ConsumesDeclaration ρ n varRule varRule :=
  fun _ ready _ => (runs_varRule ready).weaken fun _ _ _ ⟨took, lawful⟩ => ⟨took.toSpends, lawful⟩

theorem consumes_expressionRule : ConsumesBranch ρ n expressionRule expressionRule :=
  fun _ ready _ => (runs_expressionRule ready).weaken
    fun _ _ _ ⟨took, lawful⟩ => ⟨took.toSpends, lawful⟩

theorem consumes_printRule : ConsumesBranch ρ n printRule printRule := by
  intro s ready _
  refine (consumes_expression (s.rest.length + 1) s ready (Nat.lt_succ_self _)).bind
    fun value t leads ⟨spends, lawful⟩ => ?_
  refine (Runs.expect leads ready.settled .semicolon (by nofun)).bind fun _ u leads took => ?_
  exact .pure leads ⟨spends.further took.leads, rfl, lawful⟩

theorem consumes_returnRule (keyword : Token) :
    ConsumesBranch ρ n (returnRule keyword) (returnRule keyword) := by
  intro s ready _
  refine (passes_expressionUnlessAt .semicolon ready).bind fun value t leads ⟨leads', lawful⟩ => ?_
  refine (Runs.expect leads ready.settled .semicolon (by nofun)).bind fun _ u leads took => ?_
  exact .pure leads ⟨leads'.spends took.toSpends, rfl, lawful⟩

theorem runs_forInitializer (ready : s.IsReady) :
    Runs ρ s s forInitializer forInitializer
      fun o t => Took s t ∧ ∀ st ∈ o, st.Lawful none := by
  have start := ready.settled
  refine (Runs.accepts (.refl s) start .semicolon).bind fun found t leads ⟨yes, no⟩ => ?_
  refine .ite (fun isFound => .pure leads ⟨yes isFound, nofun⟩) fun notFound => ?_
  obtain rfl := no notFound
  refine (Runs.accepts leads start .varWord).bind fun found u leads ⟨yes, no⟩ => ?_
  refine .ite (fun isFound => ?_) fun notFound => ?_
  · have took := yes isFound
    refine ((runs_varRule took.ready).since leads).map fun st v leads ⟨took', lawful⟩ => ?_
    exact ⟨⟨took.toSpends.further took'.leads, took'.ready⟩,
      fun _ found => Option.some.inj found ▸ lawful⟩
  · obtain rfl := no notFound
    exact (runs_expressionRule ready).map fun st v leads ⟨took, _, lawful⟩ =>
      ⟨took, fun _ found => Option.some.inj found ▸ lawful⟩

end Simple

section Nested

variable {statement statement' : Parser Stmt} {body body' : Parser (List Stmt)}

theorem consumes_functionRule (kind : FunctionKind) (inside : ConsumesBody ρ n body body') :
    Consumes ρ (n + 1) (functionRule kind body) (functionRule kind body')
      (Stmt.FunctionLawful none) := by
  intro s ready short
  have start := ready.settled
  refine (Runs.expectName (.refl s) start (by nofun)).bind fun name t leads ⟨isName, took⟩ => ?_
  refine (Runs.expect leads start .leftParen (by nofun)).bind fun _ u leads took' => ?_
  have spends := took.toSpends.further took'.leads
  refine ((runs_entries (consumes_expectName (by nofun)) (by nofun) took'.ready
    (Nat.lt_succ_self _)).since leads).bind fun params v leads ⟨leads', areNames⟩ => ?_
  refine (Runs.expect leads start .rightParen (by nofun)).bind fun _ w leads closing => ?_
  refine (Runs.expect leads start .leftBrace (by nofun)).bind fun _ x leads opening => ?_
  have spends' := ((spends.further leads').further closing.leads).further opening.leads
  have shorter := spends'.shorter
  refine (inside s x start spends' opening.ready (by omega)).bind
    fun statements y leads ⟨spends, lawful⟩ => ?_
  exact .pure leads ⟨spends, isName, fits_none _, areNames, lawful⟩

theorem methods_done {fuel : List Token} (done : s.rest = []) : methods body fuel s = .ok [] s := by
  cases fuel with
  | nil => rfl
  | cons _ _ => simp [methods, next?, done, bind, EStateM.bind, pure, EStateM.pure]

theorem passes_methods {fuel fuel' : List Token} (inside : ConsumesBody ρ n body body')
    (settled : s.IsSettled) (short : s.rest.length ≤ n) (enough : s.rest.length ≤ fuel.length)
    (enough' : s.rest.length ≤ fuel'.length) :
    Passes ρ s (methods body fuel) (methods body' fuel') (Stmt.MethodsLawful none) := by
  induction fuel generalizing fuel' s with
  | nil =>
    have done := List.length_eq_zero_iff.mp (Nat.le_zero.mp enough)
    exact .stop (.refl s) rfl (methods_done done) ⟨.refl s, trivial⟩
  | cons _ fuel ih =>
    cases fuel' with
    | nil =>
      have done := List.length_eq_zero_iff.mp (Nat.le_zero.mp enough')
      exact .stop (.refl s) (methods_done done) rfl ⟨.refl s, trivial⟩
    | cons _ fuel' =>
      simp only [List.length_cons] at enough enough'
      refine (Runs.next? (.refl s)).bind fun found t leads ⟨first, same⟩ => ?_
      subst first same
      cases head : t.rest with
      | nil => exact .pure leads ⟨leads, trivial⟩
      | cons token rest =>
        have ready := settled.ready_of_rest (by simp [head])
        dsimp only [List.head?_cons]
        refine .ite (fun _ => .pure leads ⟨leads, trivial⟩) fun _ => ?_
        refine (consumes_functionRule .method inside t ready (by omega)).bind
          fun first u leads ⟨spends, lawful⟩ => ?_
        have shorter := spends.shorter
        refine ((ih (leads.settled settled) (by omega) (by omega) (by omega)).since leads).bind
          fun others v leads ⟨_, all⟩ => ?_
        exact .pure leads ⟨leads, lawful, all⟩

theorem consumes_classRule (inside : ConsumesBody ρ n body body') :
    ConsumesDeclaration ρ (n + 1) (classRule body) (classRule body') := by
  intro s ready short
  have start := ready.settled
  refine (Runs.expectName (.refl s) start (by nofun)).bind fun name t leads ⟨isName, took⟩ => ?_
  refine ((passes_superclassClause took.ready.settled).since leads).bind
    fun superclass u leads ⟨leads', inherits⟩ => ?_
  refine (Runs.expect leads start .leftBrace (by nofun)).bind fun _ v leads opening => ?_
  refine (Runs.remaining leads).bind fun fuel w leads ⟨all, same⟩ => ?_
  subst all same
  have spends := (took.toSpends.further leads').further opening.leads
  have shorter := spends.shorter
  refine ((passes_methods inside opening.ready.settled (by omega) (Nat.le_refl _)
    (Nat.le_refl _)).since leads).bind fun members x leads ⟨leads', lawful⟩ => ?_
  refine (Runs.expect leads start .rightBrace (by nofun)).bind fun _ y leads closing => ?_
  exact .pure leads ⟨(spends.further leads').further closing.leads, isName, inherits, lawful⟩

theorem consumes_forRule (nested : ConsumesBranch ρ n statement statement') :
    ConsumesBranch ρ (n + 1) (forRule statement) (forRule statement') := by
  intro s ready short
  have start := ready.settled
  refine (Runs.expect (.refl s) start .leftParen (by nofun)).bind fun _ t leads opening => ?_
  refine ((runs_forInitializer opening.ready).since leads).bind
    fun initializer u leads ⟨took, initializes⟩ => ?_
  refine ((passes_expressionUnlessAt .semicolon took.ready).since leads).bind
    fun condition v leads ⟨leads', tests⟩ => ?_
  refine (Runs.expect leads start .semicolon (by nofun)).bind fun _ w leads middle => ?_
  have spends := ((opening.toSpends.further took.leads).further leads').further middle.leads
  refine ((passes_expressionUnlessAt .rightParen middle.ready).since leads).bind
    fun increment x leads ⟨leads', steps⟩ => ?_
  refine (Runs.expect leads start .rightParen (by nofun)).bind fun _ y leads closing => ?_
  have spends' := (spends.further leads').further closing.leads
  have shorter := spends'.shorter
  refine ((nested y closing.ready (by omega)).since leads).bind
    fun body z leads ⟨spends'', isStatement, lawful⟩ => ?_
  exact .pure leads ⟨spends'.further spends''.leads, Stmt.forLoop_isStatement,
    Stmt.lawful_forLoop initializes tests steps isStatement lawful⟩

theorem runs_condition {opening closing : ParseError.Cause} {f f' : Expr → Parser Stmt}
    {R : Stmt → State → Prop} (ready : s.IsReady) (known : opening ≠ .expression)
    (known' : closing ≠ .expression)
    (behind : ∀ condition t, condition.Lawful none → Spends s t → t.IsReady →
      Runs ρ s t (f condition) (f' condition) R) :
    Runs ρ s s
      (do
        let _ ← expect .leftParen opening
        let condition ← expression
        let _ ← expect .rightParen closing
        f condition)
      (do
        let _ ← expect .leftParen opening
        let condition ← expression
        let _ ← expect .rightParen closing
        f' condition) R := by
  have start := ready.settled
  refine (Runs.expect (.refl s) start .leftParen known).bind fun _ t leads took => ?_
  refine ((consumes_expression _ t took.ready (Nat.lt_succ_self _)).since leads).bind
    fun condition u leads ⟨spends, lawful⟩ => ?_
  refine (Runs.expect leads start .rightParen known').bind fun _ v leads took' => ?_
  exact behind condition v lawful ((took.toSpends.further spends.leads).further took'.leads)
    took'.ready

theorem consumes_ifRule (nested : ConsumesBranch ρ n statement statement') :
    ConsumesBranch ρ (n + 1) (ifRule statement) (ifRule statement') := by
  intro s ready short
  rw [ifRule_eq, ifRule_eq]
  refine runs_condition ready (by nofun) (by nofun) fun condition t tests spends ready' => ?_
  have shorter := spends.shorter
  refine ((nested t ready' (by omega)).since spends.leads).bind
    fun thenBranch u leads ⟨first, lawful⟩ => ?_
  have shorter' := first.shorter
  refine ((passes_elseClause nested (leads.settled ready.settled) (by omega)).since leads).bind
    fun elseBranch v leads ⟨leads', lawful'⟩ => ?_
  exact .pure leads ⟨(spends.further first.leads).further leads', rfl,
    Stmt.lawful_branch_iff.mpr ⟨tests, lawful, lawful'⟩⟩

theorem consumes_whileRule (nested : ConsumesBranch ρ n statement statement') :
    ConsumesBranch ρ (n + 1) (whileRule statement) (whileRule statement') := by
  intro s ready short
  refine runs_condition ready (by nofun) (by nofun) fun condition t tests spends ready' => ?_
  have shorter := spends.shorter
  refine ((nested t ready' (by omega)).since spends.leads).bind
    fun body u leads ⟨inside, lawful⟩ => ?_
  exact .pure leads ⟨spends.further inside.leads, rfl, tests, lawful⟩

theorem consumes_statementRule (nested : ConsumesBranch ρ n statement statement')
    (inside : ConsumesBody ρ n body body') :
    ConsumesBranch ρ (n + 1) (statementRule statement body) (statementRule statement' body') := by
  intro s ready short
  refine (Runs.takeIf (.refl s) ready.settled isOneOf_notLiteral).bind fun found t leads taken => ?_
  cases found with
  | none =>
    obtain rfl : t = s := taken
    exact consumes_expressionRule t ready short
  | some token =>
    obtain ⟨-, -, took⟩ := taken
    have shorter := took.shorter
    -- Every rule behind a word reads from its own start.
    have behind {p p' : Parser Stmt} (consumes : ConsumesBranch ρ (n + 1) p p') :
        RunsOn ρ s t p p' fun st => st.isStatement = true ∧ st.Lawful none :=
      ((consumes t took.ready (by omega)).since leads).weaken
        fun _ _ _ ⟨spends, lawful⟩ => ⟨took.toSpends.further spends.leads, lawful⟩
    dsimp only
    split
    case h_1 => exact behind (consumes_forRule nested)
    case h_2 => exact behind (consumes_ifRule nested)
    case h_3 => exact behind consumes_printRule
    case h_4 => exact behind (consumes_returnRule token)
    case h_5 => exact behind (consumes_whileRule nested)
    case h_6 =>
      exact (inside s t ready.settled took.toSpends took.ready (by omega)).map
        fun _ _ _ ⟨spends, lawful⟩ => ⟨spends, rfl, lawful⟩

theorem consumes_declarationRule (nested : ConsumesBranch ρ (n + 1) statement statement')
    (inside : ConsumesBody ρ n body body') :
    ConsumesDeclaration ρ (n + 1) (declarationRule statement body)
      (declarationRule statement' body') := by
  intro s ready short
  refine (Runs.takeIf (.refl s) ready.settled isOneOf_notLiteral).bind fun found t leads taken => ?_
  cases found with
  | none =>
    obtain rfl : t = s := taken
    exact (nested t ready short).weaken fun _ _ _ ⟨spends, _, lawful⟩ => ⟨spends, lawful⟩
  | some token =>
    obtain ⟨-, -, took⟩ := taken
    have shorter := took.shorter
    have behind {p p' : Parser Stmt} (consumes : ConsumesDeclaration ρ (n + 1) p p') :
        RunsOn ρ s t p p' (Stmt.Lawful none) :=
      ((consumes t took.ready (by omega)).since leads).weaken
        fun _ _ _ ⟨spends, lawful⟩ => ⟨took.toSpends.further spends.leads, lawful⟩
    dsimp only
    split
    case h_1 => exact behind (consumes_classRule inside)
    case h_2 =>
      exact ((consumes_functionRule .function inside t took.ready (by omega)).since leads).map
        fun _ _ _ ⟨spends, lawful⟩ => ⟨took.toSpends.further spends.leads, lawful⟩
    case h_3 => exact behind consumes_varRule

end Nested

end Lox.Parser
