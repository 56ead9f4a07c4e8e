import Lox.Proofs.Alike.Static
import Lox.Proofs.Parser.Ids
import Lox.Proofs.Trace.Following

namespace Lox

/-- What no action changes: the distances on record, and how much the sink will take. -/
def Machine.settings (m : Machine) : Locals × Option Nat := (m.locals, m.sink.limit)

namespace Run

variable {α β : Type} {x y : Run α}

def IsSteady (x : Run α) : Prop := ∀ m, (lastState (x m)).settings = m.settings

namespace IsSteady

theorem bind {f : α → Run β} (first : IsSteady x) (second : ∀ a, IsSteady (f a)) :
    IsSteady (x >>= f) := by
  intro m
  have start := first m
  simp only [Bind.bind, EStateM.bind]
  cases ends : x m with
  | ok a m' =>
    rw [ends] at start
    exact (second a m').trans start
  | error reason m' =>
    rw [ends] at start
    exact start

theorem locals (h : IsSteady x) (m : Machine) : (lastState (x m)).locals = m.locals :=
  congrArg Prod.fst (h m)

theorem limit (h : IsSteady x) (m : Machine) : (lastState (x m)).sink.limit = m.sink.limit :=
  congrArg Prod.snd (h m)

theorem write (text : String) : IsSteady (Run.write text) := by
  intro m
  unfold Run.write
  split <;> rfl

theorem printLine (text : String) : IsSteady (Run.printLine text) :=
  (write text).bind fun _ => write "\n"

end IsSteady

theorem IsQuiet.isSteady (quiet : x.IsQuiet) : x.IsSteady := fun m =>
  Prod.ext (quiet.locals m) (congrArg Sink.limit (quiet.sink m))

theorem follows_isSteady : plain.Follows fun _ _ y => y.IsSteady where
  pure a := (IsQuiet.pure a).isSteady
  bind first second := first.bind second
  quiet h := h.isSteady
  printLine text := .printLine text
  around _ h := h

theorem isSteady_evaluate (fuel : Nat) (e : Expr) (env : Env) : (evaluate fuel e env).IsSteady :=
  follows_isSteady.evaluate fuel e env

theorem isSteady_program (fuel : Nat) (ss : List Stmt) : (program fuel ss).IsSteady :=
  follows_isSteady.program fuel ss

theorem isSteady_property (object : Nat) (c : Class) (name : Token) :
    (property object c name).IsSteady :=
  follows_isSteady.property object c name

theorem isSteady_call (fuel : Nat) (callee : Value) (paren : Token) (arguments : List Value) :
    (call (execute fuel) callee paren arguments).IsSteady :=
  @Runner.Follows.call _ _ _ _ follows_isSteady (execute fuel) _ (follows_isSteady.both fuel).2
    callee paren arguments

/-- Where these distances are on record, the two actions do the same, and leave them on record. -/
structure EqualUnder (locals : Locals) (x y : Run α) : Prop where
  steady : x.IsSteady
  equal : ∀ m, m.locals = locals → x m = y m

variable {locals : Locals}

namespace EqualUnder

theorem refl (steady : x.IsSteady) : EqualUnder locals x x := ⟨steady, fun _ _ => rfl⟩

theorem quiet (h : x.IsQuiet) : EqualUnder locals x x := refl h.isSteady

theorem bind {f g : α → Run β} (first : EqualUnder locals x y)
    (second : ∀ a, EqualUnder locals (f a) (g a)) : EqualUnder locals (x >>= f) (y >>= g) where
  steady := first.steady.bind fun a => (second a).steady
  equal m known := by
    have kept := first.steady.locals m
    simp only [Bind.bind, EStateM.bind, ← first.equal m known]
    cases ends : x m with
    | ok a m' =>
      rw [ends] at kept
      exact (second a).equal m' (kept.trans known)
    | error reason m' => rfl

end EqualUnder

end Run

def Matching.sameEntry (locals : Locals) : Matching :=
  { Lines.still with ids := fun id id' => locals[id]? = locals[id']? }

theorem agrees_of_unrecorded {locals : Locals} {occurrences : List (Nat × Token)}
    (absent : ∀ id ∈ idsOf occurrences, locals[id]? = none) :
    Agrees (fun id _ d => locals[id]? = d) (sitesOf [] occurrences) := by
  intro site member
  obtain ⟨occurrence, member', rfl⟩ := List.mem_map.mp member
  exact absent _ (List.mem_map_of_mem member')

theorem Expr.Like.sameEntry {locals : Locals} {e e' : Expr} (h : e.Like .anyIds e')
    (absent : ∀ id ∈ e.ids, locals[id]? = none) (absent' : ∀ id ∈ e'.ids, locals[id]? = none) :
    e.Like (.sameEntry locals) e' := by
  have h : e.Like (.unnumbered (Matching.sameEntry locals)) e' := h
  exact h.number (fun _ _ _ _ _ entry entry' => entry.trans entry'.symm)
    (agrees_of_unrecorded absent) (agrees_of_unrecorded absent')

namespace Run

variable {locals : Locals} {id id' : Nat}

theorem readVariable_equalUnder (same : locals[id]? = locals[id']?) (name : Token) (env : Env) :
    EqualUnder locals (readVariable id name env) (readVariable id' name env) where
  steady := (IsQuiet.readVariable id name env).isSteady
  equal m known := by
    subst known
    simp only [readVariable, same]

theorem writeVariable_equalUnder (same : locals[id]? = locals[id']?) (name : Token) (env : Env)
    (value : Value) :
    EqualUnder locals (writeVariable id name env value) (writeVariable id' name env value) where
  steady := (IsQuiet.writeVariable id name env value).isSteady
  equal m known := by
    subst known
    simp only [writeVariable, bind, EStateM.bind, read, same]

theorem superMethod_equalUnder (same : locals[id]? = locals[id']?) (keyword method : Token)
    (env : Env) :
    EqualUnder locals (superMethod id keyword method env) (superMethod id' keyword method env) where
  steady := (IsQuiet.superMethod id keyword method env).isSteady
  equal m known := by
    subst known
    simp only [superMethod_eq, bind, EStateM.bind, read, same]

section Fuel

variable {fuel : Nat}
  (exprs : ∀ {e e' : Expr}, e.Like (.sameEntry locals) e' → ∀ env,
    EqualUnder locals (evaluate fuel e env) (evaluate fuel e' env))
include exprs

theorem traverse_equalUnder {es es' : List Expr} (h : Expr.AllLike (.sameEntry locals) es es')
    (env : Env) :
    EqualUnder locals (traverse (fun e => evaluate fuel e env) es)
      (traverse (fun e => evaluate fuel e env) es') := by
  induction es generalizing es' with
  | nil =>
    cases h
    exact .quiet (.pure _)
  | cons e es ih =>
    cases h with
    | cons first others =>
      exact (exprs first env).bind fun _ => (ih others).bind fun _ => .quiet (.pure _)

theorem evaluate_succ_equalUnder {e e' : Expr} (h : e.Like (.sameEntry locals) e') (env : Env) :
    EqualUnder locals (evaluate (fuel + 1) e env) (evaluate (fuel + 1) e' env) := by
  cases h with
  | literal value => exact .quiet (.pure _)
  | grouping inside => exact exprs inside env
  | unary token inside =>
    obtain rfl := token.eq
    exact (exprs inside env).bind fun _ => .quiet (.ofExcept _)
  | binary first token second =>
    obtain rfl := token.eq
    exact (exprs first env).bind fun _ => (exprs second env).bind fun _ => .quiet (.ofExcept _)
  | @logical _ _ _ _ _ operator first token second =>
    obtain rfl := token.eq
    refine (exprs first env).bind fun v => ?_
    by_cases decides : Operator.decides operator v = true
    · rw [if_pos decides, if_pos decides]
      exact .quiet (.pure v)
    · rw [if_neg decides, if_neg decides]
      exact exprs second env
  | var same token =>
    obtain rfl := token.eq
    exact readVariable_equalUnder same _ env
  | assign same token inside =>
    obtain rfl := token.eq
    exact (exprs inside env).bind fun v =>
      (writeVariable_equalUnder same _ env v).bind fun _ => .quiet (.pure v)
  | call first token rest =>
    obtain rfl := token.eq
    refine (exprs first env).bind fun f => ?_
    refine (traverse_equalUnder exprs rest env).bind fun values => ?_
    exact .refl ((IsQuiet.checkCall f _ _).isSteady.bind fun _ => isSteady_call fuel f _ values)
  | get first token =>
    obtain rfl := token.eq
    refine (exprs first env).bind fun v => ?_
    cases v with
    | object id c => exact .refl (isSteady_property id c _)
    | _ => exact .quiet (.fail _ _)
  | set first token second =>
    obtain rfl := token.eq
    refine (exprs first env).bind fun v => ?_
    cases v with
    | object id c =>
      refine (exprs second env).bind fun v => .quiet ?_
      rw [plain_step]
      exact (IsQuiet.onStore _).bind fun _ => .pure v
    | _ => exact .quiet (.fail _ _)
  | this same token =>
    obtain rfl := token.eq
    exact readVariable_equalUnder same _ env
  | super same token name =>
    obtain rfl := token.eq
    obtain rfl := name.eq
    exact superMethod_equalUnder same _ _ env

end Fuel

/-- The ids in an expression count only for what is on record under them. -/
theorem evaluate_equalUnder (fuel : Nat) {e e' : Expr} (h : e.Like (.sameEntry locals) e')
    (env : Env) : EqualUnder locals (evaluate fuel e env) (evaluate fuel e' env) := by
  induction fuel generalizing e e' env with
  | zero => exact .quiet (.stop _)
  | succ fuel ih => exact evaluate_succ_equalUnder (fun h env => ih h env) h env

end Run

end Lox
