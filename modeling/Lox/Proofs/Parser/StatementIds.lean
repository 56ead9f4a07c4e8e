import Lox.Proofs.Parser.Ids

namespace Lox

namespace Stmt

def functionIds (d : FunctionDecl) : List Nat := idsOf (functionOccurrences d)

def methodIds (ds : List FunctionDecl) : List Nat := idsOf (methodOccurrences ds)

theorem allIds_cons (s : Stmt) (ss : List Stmt) : allIds (s :: ss) = s.ids ++ allIds ss := by
  simp [allIds, ids, idsOf, allOccurrences]

theorem allIds_append (ss ts : List Stmt) : allIds (ss ++ ts) = allIds ss ++ allIds ts := by
  induction ss with
  | nil => rfl
  | cons s ss ih => rw [List.cons_append, allIds_cons, allIds_cons, ih, List.append_assoc]

theorem count_forLoop (initializer : Option Stmt) (condition increment : Option Expr) (body : Stmt)
    (id : Nat) :
    (forLoop initializer condition increment body).ids.count id =
      (optionIds initializer).count id + (Expr.optionIds condition).count id +
        (Expr.optionIds increment).count id + body.ids.count id := by
  have test : (condition.getD (.literal (.bool true))).occurrences =
      Expr.optionOccurrences condition := by
    cases condition <;> rfl
  cases initializer with
  | none =>
    cases increment <;>
      simp only [forLoop, ids, allIds, optionIds, Expr.optionIds, idsOf, occurrences,
        allOccurrences, Expr.optionOccurrences, test, Option.toList_none, List.map_append,
        List.map_nil, List.count_append, List.count_nil] <;> omega
  | some first =>
    cases increment <;>
      simp only [forLoop, ids, allIds, optionIds, Expr.optionIds, idsOf, occurrences,
        allOccurrences, Expr.optionOccurrences, test, Option.toList_some, List.map_append,
        List.map_nil, List.count_append, List.count_nil] <;> omega

end Stmt

namespace Parser

def AddsDeclaration (declaration : StateM State (Option Stmt)) : Prop :=
  ∀ taken lo s, Fresh lo s.nextId taken →
    s.nextId ≤ (declaration s).2.nextId ∧
      Fresh lo (declaration s).2.nextId (taken ++ Stmt.optionIds (declaration s).1)

theorem synchronize_nextId (s : State) : (synchronize s).nextId = s.nextId := by
  unfold synchronize
  split <;> rfl

theorem adds_recover {rule : Parser Stmt} (h : Adds rule Stmt.ids) :
    AddsDeclaration (recover rule) := by
  intro taken lo s start
  have run := h taken lo s start
  cases hr : rule s with
  | ok st t =>
    rw [hr] at run
    simp only [recover, hr, Stmt.optionIds, Option.toList_some, Stmt.allIds_cons]
    simpa [Stmt.allIds, idsOf, Stmt.allOccurrences] using run
  | error e t =>
    rw [hr] at run
    simp only [recover, hr, synchronize_nextId, State.record]
    exact ⟨run, by simpa [Stmt.optionIds, Stmt.allIds, idsOf, Stmt.allOccurrences]
      using start.later run⟩

section Declarations

variable {declaration : StateM State (Option Stmt)}

theorem adds_declarations (closes : Kind → Bool) (each : AddsDeclaration declaration)
    (fuel : List Token) (taken : List Nat) (lo : Nat) (s : State) (start : Fresh lo s.nextId taken) :
    let result := declarations closes declaration fuel s
    s.nextId ≤ result.2.nextId ∧ Fresh lo result.2.nextId (taken ++ Stmt.allIds result.1) := by
  induction fuel generalizing s taken with
  | nil => exact ⟨Nat.le_refl _, by simpa [declarations, Stmt.allIds, idsOf, Stmt.allOccurrences]⟩
  | cons spare fuel ih =>
    by_cases stops : ∀ t ∈ s.rest.head?, closes t.kind = true
    · rw [declarations_stop stops]
      exact ⟨Nat.le_refl _, by simpa [Stmt.allIds, idsOf, Stmt.allOccurrences]⟩
    cases head : s.rest with
    | nil => simp [head] at stops
    | cons t rest =>
      rw [declarations_cons head (by simpa [head] using stops)]
      obtain ⟨grows, fresh⟩ := each taken lo s start
      obtain ⟨grows', fresh'⟩ := ih _ _ fresh
      refine ⟨Nat.le_trans grows grows', ?_⟩
      rw [Stmt.allIds_append]
      rwa [List.append_assoc] at fresh'

theorem adds_block (each : AddsDeclaration declaration) :
    Adds (block declaration) Stmt.allIds := by
  intro taken lo s start
  rw [block_eq]
  obtain ⟨grows, fresh⟩ :=
    adds_declarations (· == .symbol .rightBrace) each s.rest taken lo s start
  generalize declarations (· == .symbol .rightBrace) declaration s.rest s = result at *
  have behind : Numbers (do
      let _ ← expect .rightBrace .blockClosing
      pure result.1 : Parser (List Stmt)) (taken ++ Stmt.allIds result.1)
      fun ss => taken ++ Stmt.allIds ss :=
    (Numbers.expect _ _).bind fun _ => Numbers.pure fun _ => Nat.le_refl _
  have run := behind lo result.2 fresh
  revert run
  generalize (do
      let _ ← expect .rightBrace .blockClosing
      pure result.1 : Parser (List Stmt)) result.2 = ended
  intro run
  cases ended with
  | ok ss t => exact ⟨Nat.le_trans grows run.1, run.2⟩
  | error e t => exact Nat.le_trans grows run

end Declarations

variable {statement : Parser Stmt} {body : Parser (List Stmt)}

theorem adds_functionRule (kind : FunctionKind) (inside : Adds body Stmt.allIds) :
    Adds (functionRule kind body) Stmt.functionIds := by
  intro taken
  have names : Adds (expectName .paramName) fun _ => [] := fun taken =>
    (Numbers.expectName _).weaken fun _ id => by simp
  refine (Numbers.expectName _).bind fun name => (Numbers.expect _ _).bind fun _ =>
    (adds_entries _ names taken).bind fun params => (Numbers.expect _ _).bind fun _ =>
    (Numbers.expect _ _).bind fun _ => (inside _).bind fun statements => Numbers.pure fun id => ?_
  simp [Stmt.functionIds, Stmt.allIds, idsOf, Stmt.functionOccurrences]

theorem adds_methods (inside : Adds body Stmt.allIds) (fuel : List Token) :
    Adds (methods body fuel) Stmt.methodIds := by
  have empty : Stmt.methodIds [] = [] := rfl
  induction fuel with
  | nil => exact fun taken => Numbers.pure fun id => by simp [empty]
  | cons _ fuel ih =>
    intro taken
    refine Numbers.next?.bind fun found => ?_
    cases found with
    | none => exact Numbers.pure fun id => by simp [empty]
    | some token =>
      refine Numbers.ite (fun _ => Numbers.pure fun id => by simp [empty]) fun _ => ?_
      refine (adds_functionRule .method inside taken).bind fun first => (ih _).bind fun others =>
        Numbers.pure fun id => ?_
      simp [Stmt.functionIds, Stmt.methodIds, idsOf, Stmt.methodOccurrences]

theorem adds_superclassClause : Adds superclassClause Expr.optionIds := by
  intro taken
  refine (Numbers.accepts _).bind fun found => Numbers.ite (fun _ => ?_) fun _ => ?_
  · refine (Numbers.expectName _).bind fun name => Numbers.freshId.bind fun _ =>
      Numbers.pure fun id => ?_
    simp [Expr.optionIds, idsOf, Expr.optionOccurrences, Expr.occurrences]
  · exact Numbers.pure fun id => by simp [Expr.optionIds, idsOf, Expr.optionOccurrences]

theorem adds_classRule (inside : Adds body Stmt.allIds) : Adds (classRule body) Stmt.ids := by
  intro taken
  refine (Numbers.expectName _).bind fun name => (adds_superclassClause taken).bind
    fun superclass => (Numbers.expect _ _).bind fun _ => Numbers.remaining.bind fun fuel =>
    (adds_methods inside fuel _).bind fun members => (Numbers.expect _ _).bind fun _ =>
    Numbers.pure fun id => ?_
  simp [Stmt.ids, Stmt.methodIds, Expr.optionIds, idsOf, Stmt.occurrences]

theorem adds_someExpression : Adds (some <$> expression) Expr.optionIds := fun taken =>
  (adds_expression taken).map fun _ _ => Nat.le_refl _

theorem adds_noExpression : Adds (pure none) Expr.optionIds := fun taken =>
  Numbers.pure fun id => by simp [Expr.optionIds, idsOf, Expr.optionOccurrences]

theorem adds_initializerClause : Adds initializerClause Expr.optionIds := fun taken =>
  (Numbers.accepts _).bind fun _ =>
    Numbers.ite (fun _ => adds_someExpression taken) fun _ => adds_noExpression taken

theorem adds_expressionUnlessAt (symbol : Symbol) :
    Adds (expressionUnlessAt symbol) Expr.optionIds := fun taken =>
  (Numbers.isAt _).bind fun _ =>
    Numbers.ite (fun _ => adds_noExpression taken) fun _ => adds_someExpression taken

theorem adds_varRule : Adds varRule Stmt.ids := by
  intro taken
  rw [varRule_eq]
  exact (Numbers.expectName _).bind fun name => (adds_initializerClause taken).bind
    fun initializer => (Numbers.expect _ _).bind fun _ => Numbers.pure fun _ => Nat.le_refl _

theorem adds_expressionRule : Adds expressionRule Stmt.ids := fun taken =>
  (adds_expression taken).bind fun _ => (Numbers.expect _ _).bind fun _ =>
    Numbers.pure fun _ => Nat.le_refl _

theorem optionIds_some (s : Stmt) : Stmt.optionIds (some s) = s.ids := by
  simp [Stmt.optionIds, Stmt.allIds, Stmt.ids, idsOf, Stmt.allOccurrences]

theorem optionIds_none : Stmt.optionIds none = [] := rfl

theorem adds_forInitializer : Adds forInitializer Stmt.optionIds := by
  intro taken
  have some' {rule : Parser Stmt} (h : Adds rule Stmt.ids) : Adds (some <$> rule) Stmt.optionIds :=
    fun taken => (h taken).map fun s id => by
      simp only [optionIds_some, Nat.le_refl]
  refine (Numbers.accepts _).bind fun _ => Numbers.ite (fun _ => ?_) fun _ => ?_
  · exact Numbers.pure fun id => by simp [optionIds_none]
  · refine (Numbers.accepts _).bind fun _ => Numbers.ite (fun _ => ?_) fun _ => ?_
    · exact some' adds_varRule taken
    · exact some' adds_expressionRule taken

theorem adds_forRule (nested : Adds statement Stmt.ids) : Adds (forRule statement) Stmt.ids := by
  intro taken
  refine (Numbers.expect _ _).bind fun _ => (adds_forInitializer taken).bind fun initializer =>
    (adds_expressionUnlessAt _ _).bind fun condition => (Numbers.expect _ _).bind fun _ =>
    (adds_expressionUnlessAt _ _).bind fun increment => (Numbers.expect _ _).bind fun _ =>
    (nested _).bind fun inside => Numbers.pure fun id => ?_
  simp only [List.count_append, Stmt.count_forLoop]
  omega

theorem adds_elseClause (nested : Adds statement Stmt.ids) :
    Adds (elseClause statement) Stmt.optionIds := by
  intro taken
  refine (Numbers.accepts _).bind fun _ => Numbers.ite (fun _ => ?_) fun _ => ?_
  · refine (nested taken).map fun s id => ?_
    simp only [optionIds_some, Nat.le_refl]
  · exact Numbers.pure fun id => by simp [optionIds_none]

theorem adds_ifRule (nested : Adds statement Stmt.ids) : Adds (ifRule statement) Stmt.ids := by
  intro taken
  rw [ifRule_eq]
  refine (Numbers.expect _ _).bind fun _ => (adds_expression taken).bind fun condition =>
    (Numbers.expect _ _).bind fun _ => (nested _).bind fun thenBranch =>
    (adds_elseClause nested _).bind fun elseBranch => Numbers.pure fun id => ?_
  cases elseBranch with
  | none => simp [Stmt.ids, Expr.ids, idsOf, Stmt.occurrences, optionIds_none]
  | some elseBranch =>
    rw [optionIds_some]
    simp [Stmt.ids, Expr.ids, idsOf, Stmt.occurrences]

theorem adds_whileRule (nested : Adds statement Stmt.ids) :
    Adds (whileRule statement) Stmt.ids := by
  intro taken
  refine (Numbers.expect _ _).bind fun _ => (adds_expression taken).bind fun condition =>
    (Numbers.expect _ _).bind fun _ => (nested _).bind fun inside => Numbers.pure fun id => ?_
  simp [Stmt.ids, Expr.ids, idsOf, Stmt.occurrences]

theorem adds_printRule : Adds printRule Stmt.ids := fun taken =>
  (adds_expression taken).bind fun _ => (Numbers.expect _ _).bind fun _ =>
    Numbers.pure fun _ => Nat.le_refl _

theorem adds_returnRule (word : Token) : Adds (returnRule word) Stmt.ids := fun taken =>
  (adds_expressionUnlessAt _ taken).bind fun _ => (Numbers.expect _ _).bind fun _ =>
    Numbers.pure fun _ => Nat.le_refl _

theorem adds_statementRule (nested : Adds statement Stmt.ids) (inside : Adds body Stmt.allIds) :
    Adds (statementRule statement body) Stmt.ids := by
  intro taken
  refine (Numbers.takeIf _).bind fun found => ?_
  cases found with
  | none => exact adds_expressionRule taken
  | some word =>
    dsimp only
    split
    case h_1 => exact adds_forRule nested taken
    case h_2 => exact adds_ifRule nested taken
    case h_3 => exact adds_printRule taken
    case h_4 => exact adds_returnRule word taken
    case h_5 => exact adds_whileRule nested taken
    case h_6 => exact (inside taken).map fun _ _ => Nat.le_refl _

theorem adds_declarationRule (nested : Adds statement Stmt.ids) (inside : Adds body Stmt.allIds) :
    Adds (declarationRule statement body) Stmt.ids := by
  intro taken
  refine (Numbers.takeIf _).bind fun found => ?_
  cases found with
  | none => exact nested taken
  | some word =>
    dsimp only
    split
    case h_1 => exact adds_classRule inside taken
    case h_2 => exact (adds_functionRule .function inside taken).map fun _ _ => Nat.le_refl _
    case h_3 => exact adds_varRule taken

theorem adds_levels (fuel : List Token) :
    Adds (statementAt fuel) Stmt.ids ∧ AddsDeclaration (declarationAt fuel) := by
  induction fuel with
  | nil => exact ⟨fun _ => Numbers.fail _, adds_recover fun _ => Numbers.fail _⟩
  | cons _ fuel ih =>
    obtain ⟨statements, declarations⟩ := ih
    have inside := adds_block declarations
    have nested := adds_statementRule statements inside
    exact ⟨nested, adds_recover (adds_declarationRule nested inside)⟩

theorem adds_declaration : AddsDeclaration declaration :=
  fun taken lo s => (adds_levels s.rest).2 taken lo s

theorem adds_wholeExpression : Adds wholeExpression Expr.ids := by
  intro taken
  refine (adds_expression taken).bind fun e => Numbers.next?.bind fun found => ?_
  exact Numbers.ite (fun _ => Numbers.fail _) fun _ => Numbers.pure fun _ => Nat.le_refl _

end Parser

/-- The ids in a program are different and in the range that parsing it has used. -/
theorem parse_ids (tokens : List Token) (firstId : Nat) :
    Parser.Fresh firstId (parse tokens firstId).nextId
      (Stmt.allIds (parse tokens firstId).statements) := by
  have start : Parser.Fresh firstId (Parser.State.ofTokens tokens firstId).nextId [] :=
    ⟨Nat.le_refl _, by simp, by simp⟩
  exact (Parser.adds_declarations _ Parser.adds_declaration _ [] _ _ start).2

theorem parseExpression_fresh (tokens : List Token) (firstId : Nat) :
    firstId ≤ (parseExpression tokens firstId).nextId ∧
      ∀ e, (parseExpression tokens firstId).result = .ok e →
        Parser.Fresh firstId (parseExpression tokens firstId).nextId e.ids := by
  have run := Parser.adds_wholeExpression [] firstId (.ofTokens tokens firstId)
    ⟨Nat.le_refl _, by simp, nofun⟩
  unfold parseExpression
  cases ends : Parser.wholeExpression (.ofTokens tokens firstId) with
  | ok e s =>
    rw [ends] at run
    refine ⟨run.1, fun e' parsed => ?_⟩
    dsimp only at parsed
    split at parsed
    next =>
      cases parsed
      exact run.2
    next => cases parsed
  | error error s =>
    rw [ends] at run
    exact ⟨run, fun _ parsed => by cases parsed⟩

end Lox
