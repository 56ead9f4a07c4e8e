import Lox.Evaluation

namespace Lox.Run

variable {α β : Type}

def RanOut : EStateM.Result Stop Machine α → Prop
  | .error .outOfFuel _ => True
  | _ => False

/-- `y` does what `x` does, unless `x` runs out of fuel. -/
def Fuelled (x y : Run α) : Prop := ∀ m, ¬RanOut (x m) → y m = x m

namespace Fuelled

variable {x y : Run α}

theorem refl (x : Run α) : Fuelled x x := fun _ _ => rfl

theorem outOfFuel : Fuelled (stop .outOfFuel) y := fun _ ends => absurd trivial ends

theorem bind {f g : α → Run β} (first : Fuelled x y) (second : ∀ a, Fuelled (f a) (g a)) :
    Fuelled (x >>= f) (y >>= g) := by
  intro m ends
  simp only [Bind.bind, EStateM.bind] at ends ⊢
  cases run : x m with
  | ok a m' =>
    have same : y m = .ok a m' := by rw [first m (by rw [run]; exact not_false), run]
    rw [run] at ends
    rw [same]
    exact second a m' ends
  | error reason m' =>
    have same : y m = .error reason m' := by
      rw [first m, run]
      rw [run] at ends ⊢
      cases reason with
      | outOfFuel => exact ends
      | _ => exact not_false
    rw [same]

theorem ite {condition : Bool} {x' y' : Run α} (yes : Fuelled x y) (no : Fuelled x' y') :
    Fuelled (if condition then x else x') (if condition then y else y') := by
  cases condition with
  | true => exact yes
  | false => exact no

end Fuelled

theorem traverse_fuelled {f g : α → Run β} (each : ∀ a, Fuelled (f a) (g a)) (as : List α) :
    Fuelled (traverse f as) (traverse g as) := by
  induction as with
  | nil => exact .refl _
  | cons a rest ih => exact (each a).bind fun _ => ih.bind fun _ => .refl _

theorem sequence_fuelled {f g : Stmt → Run Flow} (each : ∀ s, Fuelled (f s) (g s))
    (statements : List Stmt) : Fuelled (sequence f statements) (sequence g statements) := by
  induction statements with
  | nil => exact .refl _
  | cons s rest ih =>
    refine (each s).bind fun flow => ?_
    cases flow with
    | normal => exact ih
    | returning value => exact .refl _

theorem repeatWhile_fuelled {test test' : Run Value} {body body' : Run Flow}
    (tests : Fuelled test test') (bodies : Fuelled body body') {rounds more : Nat}
    (enough : rounds ≤ more) :
    Fuelled (repeatWhile test body rounds) (repeatWhile test' body' more) := by
  induction rounds generalizing more with
  | zero => exact .outOfFuel
  | succ rounds ih =>
    obtain ⟨more, rfl⟩ : ∃ k, more = k + 1 := ⟨more - 1, by omega⟩
    refine tests.bind fun value => .ite ?_ (.refl _)
    refine bodies.bind fun flow => ?_
    cases flow with
    | normal => exact ih (Nat.le_of_succ_le_succ enough)
    | returning value => exact .refl _

section Calls

variable {f g : Stmt → Env → Run Flow} (each : ∀ s env, Fuelled (f s env) (g s env))
include each

theorem callClosure_fuelled (closure : Closure) (paren : Token) (arguments : List Value) :
    Fuelled (callClosure f closure paren arguments) (callClosure g closure paren arguments) := by
  refine (Fuelled.refl _).bind fun env => (Fuelled.refl _).bind fun _ => ?_
  exact (sequence_fuelled (fun s => each s env) _).bind fun _ => .refl _

theorem call_fuelled (callee : Value) (paren : Token) (arguments : List Value) :
    Fuelled (call f callee paren arguments) (call g callee paren arguments) := by
  cases callee with
  | function _ closure => exact callClosure_fuelled each closure paren arguments
  | classValue c =>
    refine (Fuelled.refl _).bind fun id => ?_
    cases c.findMethod initializerName with
    | none => exact .refl _
    | some initializer =>
      exact (Fuelled.refl _).bind fun bound =>
        (callClosure_fuelled each bound paren arguments).bind fun _ => .refl _
  | _ => exact .refl _

end Calls

section Level

variable {fuel more : Nat}
  (exprs : ∀ e env, Fuelled (evaluate fuel e env) (evaluate more e env))
  (stmts : ∀ s env, Fuelled (execute fuel s env) (execute more s env))
include exprs stmts

theorem evaluate_fuelled (e : Expr) (env : Env) :
    Fuelled (evaluate (fuel + 1) e env) (evaluate (more + 1) e env) := by
  cases e with
  | literal _ => exact .refl _
  | grouping inner => exact exprs inner env
  | unary _ operand => exact (exprs operand env).bind fun _ => .refl _
  | binary left _ right =>
    exact (exprs left env).bind fun _ => (exprs right env).bind fun _ => .refl _
  | logical left _ right =>
    exact (exprs left env).bind fun _ => .ite (.refl _) (exprs right env)
  | var _ _ => exact .refl _
  | assign _ _ value => exact (exprs value env).bind fun _ => .refl _
  | call callee paren arguments =>
    refine (exprs callee env).bind fun f => ?_
    refine (traverse_fuelled (fun e => exprs e env) arguments).bind fun values => ?_
    exact (Fuelled.refl _).bind fun _ => call_fuelled stmts f paren values
  | get object _ => exact (exprs object env).bind fun _ => .refl _
  | set object _ value =>
    refine (exprs object env).bind fun target => ?_
    cases target with
    | object id _ => exact (exprs value env).bind fun _ => .refl _
    | _ => exact .refl _
  | this _ _ => exact .refl _
  | super _ _ _ => exact .refl _

theorem execute_fuelled (enough : fuel ≤ more) (s : Stmt) (env : Env) :
    Fuelled (execute (fuel + 1) s env) (execute (more + 1) s env) := by
  cases s with
  | expression e => exact (exprs e env).bind fun _ => .refl _
  | print e => exact (exprs e env).bind fun _ => .refl _
  | var name initializer =>
    cases initializer with
    | none => exact .refl _
    | some e => exact (exprs e env).bind fun _ => .refl _
  | block statements =>
    exact (Fuelled.refl _).bind fun inner => sequence_fuelled (fun s => stmts s inner) statements
  | branch condition thenBranch elseBranch =>
    cases elseBranch with
    | none => exact (exprs condition env).bind fun _ => .ite (stmts thenBranch env) (.refl _)
    | some s => exact (exprs condition env).bind fun _ => .ite (stmts thenBranch env) (stmts s env)
  | loop condition body =>
    exact repeatWhile_fuelled (exprs condition env) (stmts body env) enough
  | function _ => exact .refl _
  | ret _ value =>
    cases value with
    | none => exact .refl _
    | some e => exact (exprs e env).bind fun _ => .refl _
  | classDecl _ superclass _ =>
    cases superclass with
    | none => exact .refl _
    | some e => exact (exprs e env).bind fun _ => .refl _

end Level

theorem more_fuel {fuel more : Nat} (enough : fuel ≤ more) :
    (∀ e env, Fuelled (evaluate fuel e env) (evaluate more e env)) ∧
      ∀ s env, Fuelled (execute fuel s env) (execute more s env) := by
  induction fuel generalizing more with
  | zero => exact ⟨fun _ _ => .outOfFuel, fun _ _ => .outOfFuel⟩
  | succ fuel ih =>
    obtain ⟨more, rfl⟩ : ∃ k, more = k + 1 := ⟨more - 1, by omega⟩
    have enough' := Nat.le_of_succ_le_succ enough
    obtain ⟨exprs, stmts⟩ := ih enough'
    exact ⟨evaluate_fuelled exprs stmts, execute_fuelled exprs stmts enough'⟩

/-- From some fuel on the run ends so, and not for lack of fuel. -/
def ComesTo (run : Nat → Run α) (m : Machine) (result : EStateM.Result Stop Machine α) : Prop :=
  ¬RanOut result ∧ ∃ enough, ∀ fuel, enough ≤ fuel → run fuel m = result

theorem comesTo_of_fuelled {run : Nat → Run α}
    (steady : ∀ fuel more, fuel ≤ more → Fuelled (run fuel) (run more)) {fuel : Nat} {m : Machine}
    (ends : ¬RanOut (run fuel m)) : ComesTo run m (run fuel m) :=
  ⟨ends, fuel, fun more enough => steady fuel more enough m ends⟩

end Lox.Run
