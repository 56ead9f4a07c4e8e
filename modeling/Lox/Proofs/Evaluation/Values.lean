import Lox.Evaluation
import Lox.Proofs.Evaluation.Store

namespace Lox

/-- Values without identity. -/
def Value.IsAtom : Value → Prop
  | .nil | .bool _ | .number _ | .string _ => True
  | _ => False

theorem Literal.isAtom_value (literal : Literal) : literal.value.IsAtom := by
  cases literal <;> trivial

namespace Operator

theorem isAtom_of_unary {operator : Token} {operand v : Value}
    (h : unary operator operand = .ok v) : v.IsAtom := by
  unfold unary at h
  split at h
  · split at h <;> cases h
    trivial
  · cases h
    trivial
  · cases h

theorem isAtom_of_binary {operator : Token} {left right v : Value}
    (h : binary operator left right = .ok v) : v.IsAtom := by
  have numbers {f : Float → Float → Value} (h : onNumbers operator left right f = .ok v)
      (atom : ∀ x y, (f x y).IsAtom) : v.IsAtom := by
    unfold onNumbers at h
    split at h <;> cases h
    exact atom _ _
  unfold binary at h
  split at h
  case h_1 =>
    unfold sum at h
    split at h <;> cases h <;> trivial
  case h_9 => cases h; trivial
  case h_10 => cases h; trivial
  case h_11 => cases h
  all_goals exact numbers h fun _ _ => trivial

end Operator

namespace Class

theorem findMethod_mk (name : String) (id : Nat) (className : String) (superclass : Option Class)
    (methods : Table Closure) :
    findMethod name ⟨id, className, superclass, methods⟩ =
      (methods.get? name).or (superclass.bind fun c => c.findMethod name) := by
  cases superclass with
  | none => simp [findMethod]
  | some c =>
    simp only [findMethod, Option.bind_some]
    cases methods.get? name <;> rfl

theorem forall_findMethod {P : String → Closure → Prop} {superclass : Option Class}
    {methods : Table Closure} (id : Nat) (className : String)
    (own : ∀ name method, methods.get? name = some method → P name method)
    (inherited : ∀ c ∈ superclass, ∀ name method, c.findMethod name = some method → P name method) :
    ∀ name method, findMethod name ⟨id, className, superclass, methods⟩ = some method →
      P name method := by
  intro name method found
  rw [findMethod_mk] at found
  rcases Option.or_eq_some_iff.mp found with here | ⟨-, above⟩
  · exact own name method here
  · obtain ⟨c, known, found'⟩ := Option.bind_eq_some_iff.mp above
    exact inherited c known name method found'

end Class

theorem Run.methodTable_get? {env : Env} {methods : List FunctionDecl} {name : String}
    {method : Closure} (found : (methodTable env methods).get? name = some method) :
    ∃ d ∈ methods, d.name.lexeme = name ∧ method = ⟨d, env, name == initializerName⟩ := by
  have general (table : Table Closure) (methods : List FunctionDecl)
      (found : (List.foldl (fun table entry => table.insert entry.1 entry.2) table
        (methods.map fun method => (method.name.lexeme,
          (⟨method, env, method.name.lexeme == initializerName⟩ : Closure)))).get? name =
            some method) :
      table.get? name = some method ∨
        ∃ d ∈ methods, d.name.lexeme = name ∧ method = ⟨d, env, name == initializerName⟩ := by
    induction methods generalizing table with
    | nil => exact .inl found
    | cons first rest ih =>
      rcases ih _ found with inserted | ⟨d, member, same⟩
      · rw [Table.get?_insert] at inserted
        split at inserted
        next same =>
          cases inserted
          exact .inr ⟨first, List.mem_cons_self, same.symm, by rw [same]⟩
        next => exact .inl inserted
      · exact .inr ⟨d, List.mem_cons_of_mem _ member, same⟩
  rcases general .empty methods found with none | some
  · cases none
  · exact some

def Run.ownScope (env : Env) (name : String) (v : Value) : Run Env := do
  let inner ← openScope env
  define inner name v
  pure inner

theorem Run.bindReceiver_eq (method : Closure) (receiver : Value) :
    bindReceiver method receiver = (do
      let inner ← ownScope method.env "this" receiver
      pure { method with env := inner }) := by
  simp [bindReceiver, ownScope]

theorem Machine.binding?_initial {clock : Clock} {limit : Option Nat} {scope : Nat} {name : String}
    {v : Value} (found : (initial clock limit).store.binding? scope name = some v) :
    v = .native .clock := by
  rw [initial, Store.binding?_define_initial] at found
  split at found
  · exact (Option.some.inj found).symm
  · cases found

theorem Run.readVariable_cases (id : Nat) (name : Token) (env : Env) (m : Machine) :
    (∃ v scope, (scope ∈ env ∨ scope ∈ globals) ∧
      m.store.binding? scope name.lexeme = some v ∧ readVariable id name env m = .ok v m) ∨
        ∃ reason, readVariable id name env m = .error reason m := by
  unfold readVariable
  cases m.locals[id]? with
  | some distance =>
    dsimp only
    cases found : m.store.getAt? env distance name.lexeme with
    | some v =>
      obtain ⟨scope, here, bound⟩ := Option.bind_eq_some_iff.mp found
      exact .inl ⟨v, scope, .inl (List.mem_of_getElem? here), bound, rfl⟩
    | none => exact .inr ⟨_, rfl⟩
  | none =>
    dsimp only
    cases found : m.store.get? globals name.lexeme with
    | some v =>
      obtain ⟨scope, here, bound⟩ := Option.bind_eq_some_iff.mp found
      exact .inl ⟨v, scope, .inr (List.mem_of_find?_eq_some here), bound, rfl⟩
    | none => exact .inr ⟨_, rfl⟩

end Lox
