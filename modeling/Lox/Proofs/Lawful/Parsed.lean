import Lox.Proofs.Lawful.Evaluation
import Lox.Proofs.Parser.Program
import Lox.Proofs.Trace.Following

namespace Lox

section Trees

variable {tokens : List Token} {firstId : Nat}

theorem lawful_of_parse : Stmt.AllLawful none (parse tokens firstId).statements :=
  (Parser.parse_declares (ρ := .none) (Parser.ready_ofTokens tokens firstId).settled).lawful

theorem lawful_of_clean_parse (clean : (parse tokens firstId).errors = []) :
    Stmt.AllLawful (some Parser.maxEntries) (parse tokens firstId).statements :=
  Stmt.allLawful_of_wellFormed _ (spells_of_parse clean).wellFormed

theorem lawful_of_parseExpression {e : Expr}
    (h : (parseExpression tokens firstId).result = .ok e) :
    e.Lawful none ∧ e.Lawful (some Parser.maxEntries) := by
  refine ⟨?_, e.lawful_of_wellFormed (spells_of_parseExpression h).wellFormed⟩
  have ends := Parser.runs_wholeExpression (ρ := .none) (Parser.ready_ofTokens tokens firstId)
  unfold Parser.RunsOn Parser.Runs at ends
  unfold parseExpression at h
  generalize Parser.wholeExpression (Parser.State.relabel _ _) = result' at ends
  generalize Parser.wholeExpression (.ofTokens tokens firstId) = result at ends h
  cases ends with
  | ok leads result =>
    dsimp only at h
    split at h <;> cases h
    exact result.2
  | error leads fine => cases h

end Trees

namespace RuntimeError.Cause

theorem append_ne {start rest text : String} {letter : Char}
    (begins : start.toList.head? = some letter) (other : text.toList.head? ≠ some letter) :
    start ++ rest ≠ text := by
  rintro rfl
  rw [String.toList_append, List.head?_append, begins] at other
  exact other rfl

theorem message_ne {cause : RuntimeError.Cause} (other : cause.isOperator = false) :
    cause.message ≠ "Invalid unary operator." ∧ cause.message ≠ "Invalid binary operator." := by
  cases cause with
  | unaryOperator | binaryOperator => cases other
  | undefinedGlobal name | undefinedLocal name | superUnbound name =>
    show "Undefined variable '" ++ name ++ "'." ≠ _ ∧ "Undefined variable '" ++ name ++ "'." ≠ _
    rw [String.append_assoc]
    exact ⟨append_ne rfl (by decide), append_ne rfl (by decide)⟩
  | undefinedProperty name =>
    show "Undefined property '" ++ name ++ "'." ≠ _ ∧ "Undefined property '" ++ name ++ "'." ≠ _
    rw [String.append_assoc]
    exact ⟨append_ne rfl (by decide), append_ne rfl (by decide)⟩
  | argumentCount expected given =>
    refine ⟨?_, ?_⟩ <;> (
      show "Expected " ++ toString expected ++ " arguments but got " ++ toString given ++ "." ≠ _
      simp only [String.append_assoc]
      exact append_ne rfl (by decide))
  | clockFailed reason => exact ⟨append_ne rfl (by decide), append_ne rfl (by decide)⟩
  | _ => decide

end RuntimeError.Cause

/-- A machine that has run nothing but what the parser returned, whether there were errors or not. The
distances on record may be any. -/
inductive Machine.RanParsed : Machine → Prop where
  | initial (clock : Clock) (limit : Option Nat) : RanParsed (.initial clock limit)
  | changed {m m' : Machine} (h : RanParsed m) (same : m'.store = m.store) : RanParsed m'
  | interpret {m : Machine} (h : RanParsed m) (fuel : Nat) (tokens : List Token) (firstId : Nat)
    (locals : Locals) :
    RanParsed (lastState (Run.interpret fuel (parse tokens firstId).statements locals m))
  | evaluate {m : Machine} (h : RanParsed m) (fuel : Nat) {tokens : List Token} {firstId : Nat}
    {e : Expr} (parsed : (parseExpression tokens firstId).result = .ok e) (env : Env) :
    RanParsed (lastState (Run.evaluate fuel e env m))

theorem Lawful.Ends.lastState {α : Type} {Q : α → Prop} {result : EStateM.Result Stop Machine α}
    (h : Ends Q result) : (lastState result).store.IsLawful := by
  cases h with
  | ok store => exact store
  | error store => exact store

theorem Lawful.Ends.message_ne {α : Type} {Q : α → Prop} {error : RuntimeError} {m : Machine}
    (h : Ends Q (.error (.error error) m)) :
    error.cause.message ≠ "Invalid unary operator." ∧
      error.cause.message ≠ "Invalid binary operator." := by
  cases h with
  | error _ allowed => exact RuntimeError.Cause.message_ne (allowed error rfl)

theorem Machine.RanParsed.lawful {m : Machine} (h : m.RanParsed) : m.store.IsLawful := by
  induction h with
  | initial clock limit => exact initial_lawful clock limit
  | changed _ same ih => rwa [same]
  | interpret _ fuel tokens firstId locals ih =>
    exact (Lawful.interpret_abides fuel locals lawful_of_parse _ ih).lastState
  | evaluate _ fuel parsed env ih =>
    exact ((Lawful.abides fuel).1 _ env (lawful_of_parseExpression parsed).1 _ ih).lastState

/-- Operators, names, superclasses and branches in parsed trees are what the later passes expect, also
behind errors, and without errors no list is too long. So running what the parser returned, with any
distances and behind any such runs, never fails for an operator. -/
theorem parsed_trees_lawful :
    (∀ (tokens : List Token) (firstId : Nat),
      (∀ s ∈ (parse tokens firstId).statements, s.Lawful none) ∧
        ((parse tokens firstId).errors = [] →
          ∀ s ∈ (parse tokens firstId).statements, s.Lawful (some 255))) ∧
    (∀ (tokens : List Token) (firstId : Nat) (e : Expr),
      (parseExpression tokens firstId).result = .ok e → e.Lawful none ∧ e.Lawful (some 255)) ∧
    ∀ m : Machine, m.RanParsed → ∀ (fuel : Nat) (tokens : List Token) (firstId : Nat),
      (∀ (locals : Locals) (error : RuntimeError) (m' : Machine),
        Run.interpret fuel (parse tokens firstId).statements locals m = .error (.error error) m' →
          error.cause.message ≠ "Invalid unary operator." ∧
            error.cause.message ≠ "Invalid binary operator.") ∧
      ∀ (e : Expr) (env : Env) (error : RuntimeError) (m' : Machine),
        (parseExpression tokens firstId).result = .ok e →
          Run.evaluate fuel e env m = .error (.error error) m' →
            error.cause.message ≠ "Invalid unary operator." ∧
              error.cause.message ≠ "Invalid binary operator." := by
  refine ⟨fun tokens firstId => ⟨Stmt.allLawful_iff.mp lawful_of_parse,
    fun clean => Stmt.allLawful_iff.mp (lawful_of_clean_parse clean)⟩,
    fun tokens firstId e parsed => lawful_of_parseExpression parsed,
    fun m ran fuel tokens firstId => ⟨fun locals error m' run => ?_,
      fun e env error m' parsed run => ?_⟩⟩
  · have lawful : Stmt.AllLawful none (parse tokens firstId).statements := lawful_of_parse
    have ends := Lawful.interpret_abides fuel locals lawful m ran.lawful
    rw [run] at ends
    exact ends.message_ne
  · have ends := (Lawful.abides fuel).1 e env (lawful_of_parseExpression parsed).1 m ran.lawful
    rw [run] at ends
    exact ends.message_ne

end Lox
