import Lox.Proofs.Evaluation.Names
import Lox.Proofs.Evaluation.Values

namespace Lox.Reference

open World

variable {current : Option Nat} {W : World} {v v' w w' : Value}

namespace Sim

/-- The results of operators hold no environments, and their errors do not concern names. -/
def IsPlainResult (W : World) : Except RuntimeError Value → Prop
  | .ok u => ValueRel W u u
  | .error error => ∀ m, Explained W m (.error error)

theorem ofExcept {result : Except RuntimeError Value} (h : IsPlainResult W result) :
    Sim current W (Run.ofExcept result) (Run.ofExcept result) ValueRel := by
  intro m r start
  cases result with
  | ok u => exact ⟨W, .refl _ _, start, h⟩
  | error error => exact ⟨rfl, W, .refl _ _, start, h m⟩

theorem unary (operator : Token) (h : ValueRel W v v') :
    Sim current W (Run.ofExcept (Operator.unary operator v))
      (Run.ofExcept (Operator.unary operator v')) ValueRel := by
  have same : Operator.unary operator v' = Operator.unary operator v := by
    simp only [Operator.unary, h.isTruthy]
    cases h <;> rfl
  rw [same]
  apply ofExcept
  unfold Operator.unary
  split
  · split
    · exact .number _
    · exact fun _ => trivial
  · exact .bool _
  · exact fun _ => trivial

theorem onNumbers_same (operator : Token) (h : ValueRel W v v') (k : ValueRel W w w')
    (f : Float → Float → Value) :
    Operator.onNumbers operator v' w' f = Operator.onNumbers operator v w f := by
  cases h <;> cases k <;> rfl

theorem sum_same (operator : Token) (h : ValueRel W v v') (k : ValueRel W w w') :
    Operator.sum operator v' w' = Operator.sum operator v w := by
  cases h <;> cases k <;> rfl

theorem isPlainResult_onNumbers (operator : Token) (f : Float → Float → Value)
    (h : ∀ x y, ValueRel W (f x y) (f x y)) :
    IsPlainResult W (Operator.onNumbers operator v w f) := by
  unfold Operator.onNumbers
  split
  · exact h _ _
  · exact fun _ => trivial

theorem isPlainResult_sum (operator : Token) : IsPlainResult W (Operator.sum operator v w) := by
  unfold Operator.sum
  split
  · exact .number _
  · exact .string _
  · exact fun _ => trivial

theorem binary (operator : Token) (h : ValueRel W v v') (k : ValueRel W w w') :
    Sim current W (Run.ofExcept (Operator.binary operator v w))
      (Run.ofExcept (Operator.binary operator v' w')) ValueRel := by
  have same : Operator.binary operator v' w' = Operator.binary operator v w := by
    simp only [Operator.binary, onNumbers_same operator h k, sum_same operator h k, h.equals k]
  rw [same]
  apply ofExcept
  unfold Operator.binary
  split
  case h_1 => exact isPlainResult_sum operator
  case h_9 => exact .bool _
  case h_10 => exact .bool _
  case h_11 => exact fun _ => trivial
  all_goals
    apply isPlainResult_onNumbers
    intro x y
    first
      | exact .number _
      | exact .bool _

theorem decides_same (operator : Token) (h : ValueRel W v v') :
    Operator.decides operator v' = Operator.decides operator v := by
  simp only [Operator.decides, h.isTruthy]

theorem write (text : String) :
    Sim current W (Run.write text) (Run.write text) fun _ _ _ => True := by
  intro m r start
  simp only [Run.write, start.sink]
  by_cases accepts : m.sink.accepts text = true
  · rw [if_pos accepts, if_pos accepts]
    exact ⟨W, .refl _ _, start.setSink _, trivial⟩
  · rw [if_neg accepts, if_neg accepts]
    exact ⟨rfl, W, .refl _ _, start, trivial⟩

theorem printLine (text : String) :
    Sim current W (Run.printLine text) (Run.printLine text) fun _ _ _ => True := by
  simp only [Run.printLine]
  exact (write text).bind fun _ _ _ _ _ => write "\n"

theorem readClock (paren : Token) :
    Sim current W (Run.readClock paren) (Run.readClock paren) ValueRel := by
  have tick : Sim current W Run.tick Run.tick fun _ reading reading' => reading' = reading := by
    intro m r start
    have moved : StateRel W { m with clock := m.clock.next } { r with clock := r.clock.next } :=
      { start with clock := congrArg Clock.next start.clock }
    exact Ends.ok rfl rfl (.refl _ _) moved (congrArg Clock.reading start.clock)
  refine tick.bind fun W' reading reading' _ same => ?_
  rw [same]
  cases reading with
  | ok seconds => exact pure (.number seconds)
  | error reason => exact stop _ fun _ => trivial

theorem newObject :
    Sim current W (Run.onStore Store.newObject) (Run.onStore Store.newObject)
      fun _ id id' => id' = id := by
  intro m r start
  exact Ends.ok rfl rfl (.refl _ _) start.newObject start.objects

theorem newIdentity :
    Sim current W (Run.onStore Store.newIdentity) (Run.onStore Store.newIdentity)
      fun _ id id' => id' = id := by
  intro m r start
  exact Ends.ok rfl rfl (.refl _ _) start.newIdentity start.identity

theorem setField (object : Nat) (name : String) (related : ValueRel W v v') :
    Sim current W (Run.onStore fun store => ((), store.setField object name v))
      (Run.onStore fun store => ((), store.setField object name v')) fun _ _ _ => True := by
  intro m r start
  exact Ends.ok rfl rfl (.refl _ _) (start.setField object name related) trivial

theorem checkCall (paren : Token) (given : Nat) (related : ValueRel W v v') :
    Sim current W (Run.checkCall v paren given) (Run.checkCall v' paren given)
      fun _ _ _ => v.arity? = some given := by
  simp only [Run.checkCall, related.arity?]
  cases v.arity? with
  | none => exact stop _ fun _ => trivial
  | some expected =>
    by_cases same : given = expected
    · subst same
      simp only [if_true]
      exact pure trivial
    · simp only [same, if_false]
      exact stop _ fun _ => trivial

theorem requireClass (token : Token) (related : ValueRel W v v') :
    Sim current W (Run.requireClass token v) (Run.requireClass token v') ClassRel := by
  cases related with
  | classValue h => exact pure h
  | _ => exact stop _ fun _ => trivial

theorem traverse {α β γ : Type} {f : γ → Run α} {g : γ → Run β} {Q : World → α → β → Prop}
    {items : List γ} (kept : ∀ W W' a b, Grows none W W' → Q W a b → Q W' a b)
    (each : ∀ item ∈ items, ∀ W', Grows none W W' → Sim none W' (f item) (g item) Q) :
    Sim none W (Run.traverse f items) (Run.traverse g items) fun W' => List.Forall₂ (Q W') := by
  induction items generalizing W with
  | nil => exact pure .nil
  | cons item rest ih =>
    simp only [Run.traverse]
    have first := each item List.mem_cons_self W (.refl _ _)
    refine first.bind fun W' a b grows holds => ?_
    have others := ih fun later member W'' grows' =>
      each later (List.mem_cons_of_mem _ member) W'' (grows.trans grows')
    refine others.bind fun W'' as bs grows' all => ?_
    exact pure (.cons (kept _ _ _ _ grows' holds) all)

end Sim

theorem methodTable_related {Γ : Scopes} {env cells : Env} (linked : Linked W none Γ env cells)
    (methods : List FunctionDecl)
    (resolved : ∀ d ∈ methods, Stmt.FunctionResolved W.records (["this"] :: Γ) d) (name : String) :
    Option.Rel (MethodRel W) ((Run.methodTable env methods).get? name)
      ((Run.methodTable cells methods).get? name) := by
  have general (table table' : Table Closure)
      (related : Option.Rel (MethodRel W) (table.get? name) (table'.get? name)) :
      Option.Rel (MethodRel W)
        ((List.foldl (fun table entry => table.insert entry.1 entry.2) table
          (methods.map fun method => (method.name.lexeme,
            (⟨method, env, method.name.lexeme == initializerName⟩ : Closure)))).get? name)
        ((List.foldl (fun table entry => table.insert entry.1 entry.2) table'
          (methods.map fun method => (method.name.lexeme,
            (⟨method, cells, method.name.lexeme == initializerName⟩ : Closure)))).get? name) := by
    induction methods generalizing table table' with
    | nil => exact related
    | cons method rest ih =>
      simp only [List.map_cons, List.foldl_cons]
      refine ih (fun d member => resolved d (List.mem_cons_of_mem _ member)) _ _ ?_
      rw [Table.get?_insert, Table.get?_insert]
      by_cases same : name = method.name.lexeme
      · rw [if_pos same, if_pos same]
        exact .some ⟨Γ, ⟨rfl, rfl, linked⟩, resolved method List.mem_cons_self⟩
      · rw [if_neg same, if_neg same]
        exact related
  exact general .empty .empty .none

theorem ClassRel.mk' {superclass superclass' : Option Class} {methods methods' : Table Closure}
    (id : Nat) (name : String) (inherited : Option.Rel (ClassRel W) superclass superclass')
    (own : ∀ n, Option.Rel (MethodRel W) (methods.get? n) (methods'.get? n)) :
    ClassRel W ⟨id, name, superclass, methods⟩ ⟨id, name, superclass', methods'⟩ where
  id := rfl
  name := rfl
  methods n := by
    rw [Class.findMethod_mk, Class.findMethod_mk]
    have similar := own n
    revert similar
    generalize methods.get? n = found
    generalize methods'.get? n = found'
    intro similar
    cases similar with
    | some method => exact .some method
    | none =>
      cases inherited with
      | none => exact .none
      | some related => exact related.methods n

end Lox.Reference
