import Lox.Proofs.Parser.Runs
import Lox.Proofs.Syntax.Lawful

namespace Lox.Parser

open State

variable {ρ : Relabel} {s t : State} {n : Nat} {nested nested' : Parser Expr}

abbrev ConsumesExpression (ρ : Relabel) (n : Nat) (p p' : Parser Expr) : Prop :=
  Consumes ρ n p p' (Expr.Lawful none)

theorem consumes_primary (inner : ConsumesExpression ρ n nested nested') :
    ConsumesExpression ρ (n + 1) (primary nested) (primary nested') := by
  intro s ready short
  have start := ready.settled
  refine (Runs.next? (.refl s)).bind fun found u leads ⟨first, same⟩ => ?_
  subst first same
  cases head : u.rest with
  | nil =>
    -- This is where a rule that only looks at the last token could take it once more.
    exact Runs.fail leads start (ready.fine head)
  | cons token rest =>
    have spends := spends_tail head
    have literal (value : Literal) : RunsOn ρ u u (do Parser.skip; pure (.literal value))
        (do Parser.skip; pure (.literal value)) (Expr.Lawful none) :=
      (Runs.skip leads head).bind fun _ _ leads same => .pure leads ⟨same ▸ spends, trivial⟩
    dsimp only [List.head?_cons]
    split
    case h_1 | h_2 | h_3 | h_4 | h_5 => exact literal _
    case h_6 kind =>
      refine (Runs.skip leads head).bind fun _ v leads same => ?_
      subst same
      refine (Runs.expect leads start .dot (by nofun)).bind fun _ w leads took => ?_
      refine (Runs.expectName leads start (by nofun)).bind fun method x leads ⟨isName, took'⟩ => ?_
      refine (Runs.freshId leads).bind fun id y leads fresh => ?_
      exact .pure leads
        ⟨((spends.further took.leads).further took'.leads).further fresh, isName⟩
    case h_7 =>
      refine (Runs.skip leads head).bind fun _ v leads same => ?_
      subst same
      exact (Runs.freshId leads).bind fun id w leads fresh =>
        .pure leads ⟨spends.further fresh, trivial⟩
    case h_8 isName =>
      refine (Runs.skip leads head).bind fun _ v leads same => ?_
      subst same
      exact (Runs.freshId leads).bind fun id w leads fresh =>
        .pure leads ⟨spends.further fresh, isName⟩
    case h_9 kind =>
      refine (Runs.skip leads head).bind fun _ v leads same => ?_
      subst same
      have ready' := ready_tail start head (by rw [kind]; rfl)
      have shorter := spends.shorter
      refine ((inner _ ready' (by omega)).since leads).bind fun e w leads ⟨spends', lawful⟩ => ?_
      refine (Runs.expect leads start .rightParen (by nofun)).bind fun _ x leads took => ?_
      exact .pure leads ⟨(spends.further spends'.leads).further took.leads, lawful⟩
    case h_10 noNumber noString _ _ _ _ =>
      refine Runs.fail leads start fun _ => ?_
      rw [blamed_cons head]
      cases kind : token.kind with
      | number value => exact absurd kind (noNumber value)
      | string contents => exact absurd kind (noString contents)
      | _ => rfl

theorem calls_done {fuel : List Token} {callee : Expr} (done : t.rest = []) :
    calls nested fuel callee t = .ok callee t := by
  cases fuel with
  | nil => rfl
  | cons _ _ => simp [calls, takeIf, done, bind, EStateM.bind, pure, EStateM.pure]

theorem runs_calls {fuel fuel' : List Token} {callee : Expr}
    (inner : ConsumesExpression ρ n nested nested') (start : s.IsSettled) (spends : Spends s t)
    (short : t.rest.length ≤ n) (enough : t.rest.length ≤ fuel.length)
    (enough' : t.rest.length ≤ fuel'.length) (lawful : callee.Lawful none) :
    RunsOn ρ s t (calls nested fuel callee) (calls nested' fuel' callee) (Expr.Lawful none) := by
  induction fuel generalizing fuel' t callee with
  | nil =>
    have done := List.length_eq_zero_iff.mp (Nat.le_zero.mp enough)
    exact .stop spends.leads rfl (calls_done done) ⟨spends, lawful⟩
  | cons _ fuel ih =>
    cases fuel' with
    | nil =>
      have done := List.length_eq_zero_iff.mp (Nat.le_zero.mp enough')
      exact .stop spends.leads (calls_done done) rfl ⟨spends, lawful⟩
    | cons _ fuel' =>
      simp only [List.length_cons] at enough enough'
      refine (Runs.takeIf spends.leads start isOneOf_notLiteral).bind fun found u leads taken => ?_
      cases found with
      | none =>
        obtain rfl : u = t := taken
        exact .pure leads ⟨spends, lawful⟩
      | some token =>
        obtain ⟨-, -, took⟩ := taken
        have spends' := spends.further took.leads
        have shorter := took.shorter
        dsimp only
        refine .ite (fun _ => ?_) fun _ => ?_
        · refine (Runs.expectName leads start (by nofun)).bind
            fun name v leads ⟨isName, took'⟩ => ?_
          have shorter' := took'.shorter
          exact ih (spends'.further took'.leads) (by omega) (by omega) (by omega) ⟨isName, lawful⟩
        · refine ((runs_entries inner (by nofun) took.ready (by omega)).since leads).bind
            fun arguments v leads ⟨leads', all⟩ => ?_
          refine (Runs.expect leads start .rightParen (by nofun)).bind fun paren w _ took' => ?_
          have shorter' := took'.shorter
          have longer := leads'.rest.length_le
          have arguments' := Expr.allLawful_iff.mpr all
          exact ih ((spends'.further leads').further took'.leads) (by omega) (by omega) (by omega)
            ⟨fits_none _, lawful, arguments'⟩

theorem consumes_call (inner : ConsumesExpression ρ n nested nested') :
    ConsumesExpression ρ (n + 1) (call nested) (call nested') := by
  intro s ready short
  refine (consumes_primary inner s ready short).bind fun callee t leads ⟨spends, lawful⟩ => ?_
  refine (Runs.remaining leads).bind fun fuel u _ ⟨all, same⟩ => ?_
  subst all same
  have shorter := spends.shorter
  exact runs_calls inner ready.settled spends (by omega) (Nat.le_refl _) (Nat.le_refl _) lawful

theorem lawful_foldr_unary {operators : List Token} {operand : Expr} (lawful : operand.Lawful none)
    (all : ∀ operator ∈ operators, isOneOf [.bang, .minus] operator.kind = true) :
    (operators.foldr Expr.unary operand).Lawful none := by
  induction operators with
  | nil => exact lawful
  | cons operator rest ih =>
    obtain ⟨first, later⟩ := List.forall_mem_cons.mp all
    exact ⟨first, ih later⟩

theorem consumes_unary (inner : ConsumesExpression ρ n nested nested') :
    ConsumesExpression ρ (n + 1) (unary nested) (unary nested') := by
  intro s ready short
  refine (Runs.takeWhile ready isOneOf_notLiteral).bind fun operators t leads ⟨all, ready'⟩ => ?_
  have longer := leads.rest.length_le
  refine ((consumes_call inner t ready' (by omega)).since leads).bind
    fun operand u leads' ⟨spends, lawful⟩ => ?_
  exact .pure leads' ⟨leads.spends spends, lawful_foldr_unary lawful all⟩

section Chains

variable {node : Expr → Token → Expr → Expr} {operators : List Symbol}
  {operand operand' : Parser Expr}

theorem chain_done {fuel : List Token} {left : Expr} (done : t.rest = []) :
    chain node operators operand fuel left t = .ok left t := by
  cases fuel with
  | nil => rfl
  | cons _ _ => simp [chain, takeIf, done, bind, EStateM.bind, pure, EStateM.pure]

variable (each : ConsumesExpression ρ n operand operand')
  (grow : ∀ {left operator right}, isOneOf operators operator.kind = true → left.Lawful none →
    right.Lawful none → (node left operator right).Lawful none)
include each grow

theorem runs_chain {fuel fuel' : List Token} {left : Expr} (start : s.IsSettled)
    (spends : Spends s t) (short : t.rest.length ≤ n) (enough : t.rest.length ≤ fuel.length)
    (enough' : t.rest.length ≤ fuel'.length) (lawful : left.Lawful none) :
    RunsOn ρ s t (chain node operators operand fuel left) (chain node operators operand' fuel' left)
      (Expr.Lawful none) := by
  induction fuel generalizing fuel' t left with
  | nil =>
    have done := List.length_eq_zero_iff.mp (Nat.le_zero.mp enough)
    exact .stop spends.leads rfl (chain_done done) ⟨spends, lawful⟩
  | cons _ fuel ih =>
    cases fuel' with
    | nil =>
      have done := List.length_eq_zero_iff.mp (Nat.le_zero.mp enough')
      exact .stop spends.leads (chain_done done) rfl ⟨spends, lawful⟩
    | cons _ fuel' =>
      simp only [List.length_cons] at enough enough'
      refine (Runs.takeIf spends.leads start isOneOf_notLiteral).bind fun found u leads taken => ?_
      cases found with
      | none =>
        obtain rfl : u = t := taken
        exact .pure leads ⟨spends, lawful⟩
      | some operator =>
        obtain ⟨isOperator, -, took⟩ := taken
        have shorter := took.shorter
        refine ((each u took.ready (by omega)).since leads).bind
          fun right v _ ⟨spends', lawful'⟩ => ?_
        have shorter' := spends'.shorter
        exact ih ((spends.further took.leads).further spends'.leads) (by omega) (by omega) (by omega)
          (grow isOperator lawful lawful')

theorem consumes_leftAssociative :
    ConsumesExpression ρ n (leftAssociative node operators operand)
      (leftAssociative node operators operand') := by
  intro s ready short
  refine (each s ready short).bind fun first t leads ⟨spends, lawful⟩ => ?_
  refine (Runs.remaining leads).bind fun fuel u _ ⟨all, same⟩ => ?_
  subst all same
  have shorter := spends.shorter
  exact runs_chain each grow ready.settled spends (by omega) (Nat.le_refl _) (Nat.le_refl _) lawful

end Chains

theorem isOneOf_mono {some all : List Symbol} {kind : Kind} (more : some ⊆ all)
    (h : isOneOf some kind = true) : isOneOf all kind = true := by
  obtain ⟨symbol, member, same⟩ := List.any_eq_true.mp h
  exact List.any_eq_true.mpr ⟨symbol, more member, same⟩

theorem consumes_disjunction (inner : ConsumesExpression ρ n nested nested') :
    ConsumesExpression ρ (n + 1) (disjunction nested) (disjunction nested') := by
  have binary {operators : List Symbol} (some : operators ⊆ Expr.binaryOperators)
      {operand operand' : Parser Expr} (each : ConsumesExpression ρ (n + 1) operand operand') :
      ConsumesExpression ρ (n + 1) (leftAssociative .binary operators operand)
        (leftAssociative .binary operators operand') :=
    consumes_leftAssociative each fun isOperator left right =>
      ⟨isOneOf_mono some isOperator, left, right⟩
  have logical {operators : List Symbol} (some : operators ⊆ Expr.logicalOperators)
      {operand operand' : Parser Expr} (each : ConsumesExpression ρ (n + 1) operand operand') :
      ConsumesExpression ρ (n + 1) (leftAssociative .logical operators operand)
        (leftAssociative .logical operators operand') :=
    consumes_leftAssociative each fun isOperator left right =>
      ⟨isOneOf_mono some isOperator, left, right⟩
  have factors : ConsumesExpression ρ (n + 1) (factor nested) (factor nested') :=
    binary (by decide) (consumes_unary inner)
  have terms : ConsumesExpression ρ (n + 1) (term nested) (term nested') :=
    binary (by decide) factors
  have comparisons : ConsumesExpression ρ (n + 1) (comparison nested) (comparison nested') :=
    binary (by decide) terms
  have equalities : ConsumesExpression ρ (n + 1) (equality nested) (equality nested') :=
    binary (by decide) comparisons
  have conjunctions : ConsumesExpression ρ (n + 1) (conjunction nested) (conjunction nested') :=
    logical (by decide) equalities
  exact logical (by decide) conjunctions

theorem runs_assignTo {target value : Expr} {equals : Token} (spends : Spends s t)
    (spare : t.weight + 1 < s.weight) (kept : equals.kind ≠ .endOfInput)
    (lawful : target.Lawful none) (lawful' : value.Lawful none) :
    RunsOn ρ s t (assignTo target equals value) (assignTo target equals value)
      (Expr.Lawful none) := by
  unfold assignTo
  split
  · exact (Runs.freshId spends.leads).bind fun id u leads fresh =>
      .pure leads ⟨spends.further fresh, lawful, lawful'⟩
  · exact .pure spends.leads ⟨spends, lawful.1, lawful.2, lawful'⟩
  · refine (Runs.report spends spare (by nofun) kept).bind fun _ u leads same => ?_
    subst same
    refine .pure leads ⟨⟨leads.toFollows, ?_⟩, lawful⟩
    simp only [weight, State.record, List.length_append, List.length_singleton] at spare ⊢
    omega

theorem consumes_assignment (inner : ConsumesExpression ρ n nested nested') :
    ConsumesExpression ρ (n + 1) (assignment nested) (assignment nested') := by
  intro s ready short
  have start := ready.settled
  refine (consumes_disjunction inner s ready short).bind fun target t leads ⟨spends, lawful⟩ => ?_
  refine (Runs.takeIf leads start (notLiteral .equal)).bind fun found u leads taken => ?_
  cases found with
  | none =>
    obtain rfl : u = t := taken
    exact .pure leads ⟨spends, lawful⟩
  | some equals =>
    obtain ⟨isEqual, -, took⟩ := taken
    have shorter := spends.shorter
    have shorter' := took.shorter
    refine ((inner u took.ready (by omega)).since leads).bind fun value v _ ⟨spends', lawful'⟩ => ?_
    have less := spends.less
    have less' := took.less
    have less'' := spends'.less
    refine runs_assignTo ((spends.further took.leads).further spends'.leads) (by omega) ?_ lawful
      lawful'
    rw [eq_of_beq isEqual]
    nofun

theorem expressionAt_done {fuel : List Token} (done : s.rest = []) :
    expressionAt fuel s = Parser.fail .expression s := by
  obtain ⟨rest, last, id, errors⟩ := s
  obtain rfl : rest = [] := done
  cases fuel <;> rfl

/-- An expression needs as much fuel as there are tokens, and never more. -/
theorem consumes_expressionAt {fuel fuel' : List Token} (enough : n ≤ fuel.length + 1)
    (enough' : n ≤ fuel'.length + 1) :
    ConsumesExpression ρ n (expressionAt fuel) (expressionAt fuel') := by
  induction n generalizing fuel fuel' with
  | zero => exact fun _ _ short => absurd short (Nat.not_lt_zero _)
  | succ n ih =>
    by_cases more : 0 < n
    · obtain ⟨_, fuel, rfl⟩ := List.exists_cons_of_length_pos (show 0 < fuel.length by omega)
      obtain ⟨_, fuel', rfl⟩ := List.exists_cons_of_length_pos (show 0 < fuel'.length by omega)
      simp only [List.length_cons] at enough enough'
      exact consumes_assignment (ih (by omega) (by omega))
    · intro s ready short
      have done : s.rest = [] := List.length_eq_zero_iff.mp (by omega)
      exact runs_missing ready done (expressionAt_done done) (expressionAt_done done)

theorem consumes_expression (n : Nat) : ConsumesExpression ρ n expression expression := by
  intro s ready short
  refine (Runs.remaining (.refl s)).bind fun fuel t leads ⟨all, same⟩ => ?_
  subst all same
  have enough : t.rest.length + 1 ≤ t.rest.length + 1 := Nat.le_refl _
  exact consumes_expressionAt enough enough t ready (Nat.lt_succ_self _)

end Lox.Parser
