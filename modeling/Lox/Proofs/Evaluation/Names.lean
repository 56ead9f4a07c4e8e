import Lox.Proofs.Evaluation.Actions

namespace Lox.Reference

open World

variable {current : Option Nat} {W : World} {pending : Option String} {Γ : Scopes}
  {env cells : Env} {v v' : Value} {m r : Machine}

theorem Ends.ok {α β : Type} {x : Run α} {y : Run β} {Q : World → α → β → Prop} {a : α} {b : β}
    {m' r' : Machine} {W' : World} (hx : x m = .ok a m') (hy : y r = .ok b r')
    (grows : Grows current W W') (related : StateRel W' m' r') (holds : Q W' a b) :
    Ends current W Q (x m) (y r) := by
  rw [hx, hy]
  exact ⟨W', grows, related, holds⟩

namespace StateRel

theorem binds_global (start : StateRel W m r) (name : String) :
    r.store.binds 0 name = m.store.binds 0 name := by
  have similar := start.global name
  simp only [Store.binds]
  revert similar
  generalize m.store.binding? 0 name = found
  generalize r.store.binding? 0 name = found'
  rintro (⟨-⟩ | -) <;> rfl

theorem bindingScope?_globals (start : StateRel W m r) (name : String) :
    r.store.bindingScope? globals name = m.store.bindingScope? globals name := by
  simp only [Store.bindingScope?, globals, List.find?_cons, List.find?_nil, start.binds_global]

theorem get?_globals (start : StateRel W m r) (name : String) :
    Option.Rel (ValueRel W) (m.store.get? globals name) (r.store.get? globals name) := by
  simp only [Store.get?, start.bindingScope?_globals]
  cases found : m.store.bindingScope? globals name with
  | none => exact .none
  | some scope =>
    have zero : scope = 0 := by
      have member := List.mem_of_find?_eq_some found
      simpa [globals] using member
    rw [zero]
    exact start.global name

end StateRel

namespace Sim

theorem readVariable {id : Nat} {name : Token} (linked : Linked W pending Γ env cells)
    (known : W.records id name (Γ.distance? name.lexeme)) (ready : pending ≠ some name.lexeme) :
    Sim current W (Run.readVariable id name env) (Reference.readVariable name cells) ValueRel := by
  intro m r start
  have recorded := start.records id name _ known
  cases found : Γ.distance? name.lexeme with
  | none =>
    have similar := start.get?_globals name.lexeme
    have sameScope := linked.global start found globals
    rw [found] at recorded known
    simp only [Run.readVariable, Reference.readVariable, recorded, Store.get?, sameScope]
    simp only [Store.get?] at similar
    revert similar
    generalize value : (m.store.bindingScope? globals name.lexeme).bind
      (fun scope => m.store.binding? scope name.lexeme) = w
    generalize (r.store.bindingScope? globals name.lexeme).bind
      (fun scope => r.store.binding? scope name.lexeme) = w'
    intro similar
    cases similar with
    | none => exact ⟨rfl, W, .refl _ _, start, rfl, ⟨id, known⟩, value⟩
    | some related => exact ⟨W, .refl _ _, start, related⟩
  | some distance =>
    obtain ⟨v, v', value, value', related, -⟩ := linked.bound start found ready
    rw [found] at recorded
    refine Ends.ok ?_ ?_ (.refl _ _) start related
    · simp only [Run.readVariable, recorded, value]
    · simp only [Reference.readVariable, value']

theorem writeVariable {id : Nat} {name : Token} (linked : Linked W pending Γ env cells)
    (known : W.records id name (Γ.distance? name.lexeme)) (plain : IsPlain name.lexeme)
    (related : ValueRel W v v') :
    Sim current W (Run.writeVariable id name env v) (Reference.writeVariable name cells v')
      fun _ _ _ => True := by
  intro m r start
  have recorded := start.records id name _ known
  cases found : Γ.distance? name.lexeme with
  | none =>
    have sameScope := linked.global start found globals
    rw [found] at recorded known
    rw [Run.writeVariable_global name env v recorded]
    simp only [Reference.writeVariable, Store.assign?, sameScope, start.bindingScope?_globals]
    cases first : m.store.bindingScope? globals name.lexeme with
    | none =>
      have absent : m.store.get? globals name.lexeme = none := by
        rw [Store.get?, first]
        rfl
      exact ⟨rfl, W, .refl _ _, start, rfl, ⟨id, known⟩, absent⟩
    | some scope =>
      have member := List.mem_of_find?_eq_some first
      have zero : scope = 0 := by simpa [globals] using member
      rw [zero]
      exact ⟨W, .refl _ _, start.defineGlobal name.lexeme related, trivial⟩
  | some distance =>
    obtain ⟨scope, cell, at', mapped, -, first⟩ := linked.local' start found
    rw [found] at recorded
    have grows : Grows none W (W.bind scope name.lexeme) := Grows.bind
    have step := start.bind mapped (related.mono grows) (.plain plain v)
    refine Ends.ok (a := ()) (b := ()) ?_ ?_ .bind step trivial
    · rw [Run.writeVariable_local name env v recorded]
      simp only [Store.assignAt?, at', Option.map_some]
    · simp only [Reference.writeVariable, Store.assign?, first globals, Option.map_some]

theorem newFunction {c c' : Closure} (h : FunctionRel W c c') :
    Sim current W (Run.newFunction c) (Run.newFunction c') ValueRel := by
  intro m r start
  have same : r.store.nextIdentity = m.store.nextIdentity := start.identity
  refine Ends.ok rfl rfl (.refl _ _) start.newIdentity ?_
  simp only [same]
  exact .function _ h

theorem bindReceiver {α β : Type} {R : World → α → β → Prop} {c c' : Closure} {f : Closure → Run α}
    {g : Closure → Run β} (method : MethodRel W c c') (related : ValueRel W v v')
    (isObject : ∃ id object, v = .object id object)
    (next : ∀ W' b b', Grows none W W' → b.declaration = c.declaration → FunctionRel W' b b' →
      Sim none W' (f b) (g b') R) :
    Sim current W (Run.bindReceiver c v >>= f) (Run.bindReceiver c' v' >>= g) R := by
  obtain ⟨Γ, closure, resolved⟩ := method
  have suits : Suits "this" v := ⟨fun _ => isObject, nofun⟩
  simp only [Run.bindReceiver, bind_assoc, pure_bind]
  refine ownScope closure.linked related suits fun W' env' cells' grows linked => ?_
  refine next W' _ _ grows rfl ⟨["this"] :: Γ, ⟨closure.declaration, closure.isInitializer, linked⟩,
    Stmt.FunctionResolved.mono grows.records _ resolved, fun _ => ⟨Γ, rfl⟩⟩

theorem property {c c' : Class} (object : Nat) (name : Token) (related : ClassRel W c c') :
    Sim current W (Run.property object c name) (Run.property object c' name) ValueRel := by
  intro m r start
  have similar := start.fields object name.lexeme
  simp only [Run.property_eq, Run.read, Bind.bind, EStateM.bind]
  revert similar
  generalize m.store.field? object name.lexeme = w
  generalize r.store.field? object name.lexeme = w'
  intro similar
  cases similar with
  | some value => exact ⟨W, .refl _ _, start, value⟩
  | none =>
    have methods := related.methods name.lexeme
    revert methods
    generalize c.findMethod name.lexeme = found
    generalize c'.findMethod name.lexeme = found'
    intro methods
    cases methods with
    | none => exact ⟨rfl, W, .refl _ _, start, trivial⟩
    | some method =>
      have run : Sim current W _ _ ValueRel := bindReceiver method (.object object related)
        ⟨object, c, rfl⟩ fun _ _ _ _ _ bound => newFunction bound
      exact run m r start

theorem superMethod {id : Nat} {keyword method : Token} {distance : Nat}
    (linked : Linked W pending Γ env cells) (foundSuper : Γ.distance? "super" = some (distance + 1))
    (foundThis : Γ.distance? "this" = some distance)
    (known : W.records id keyword (some (distance + 1))) (ready : pending ≠ some "super")
    (ready' : pending ≠ some "this") :
    Sim current W (Run.superMethod id keyword method env)
      (Reference.superMethod keyword method cells) ValueRel := by
  intro m r start
  have recorded := start.records id keyword _ known
  obtain ⟨v, v', value, value', related, suits⟩ := linked.bound start foundSuper ready
  obtain ⟨w, w', receiver, receiver', similar, suits'⟩ := linked.bound start foundThis ready'
  obtain ⟨c, rfl⟩ := suits.2 rfl
  obtain ⟨object, d, rfl⟩ := suits'.1 rfl
  have value'' := value' []
  have receiver'' := receiver' []
  rw [List.append_nil] at value'' receiver''
  cases related with
  | classValue superclass =>
    cases similar with
    | object _ own =>
      have methods := superclass.methods method.lexeme
      simp only [Run.superMethod_eq, Reference.superMethod, Run.read, Bind.bind, EStateM.bind,
        recorded, value, value'', receiver'', Nat.add_sub_cancel, receiver]
      revert methods
      generalize c.findMethod method.lexeme = found
      generalize Class.findMethod method.lexeme _ = found'
      intro methods
      cases methods with
      | none => exact ⟨rfl, W, .refl _ _, start, trivial⟩
      | some related =>
        have run : Sim current W _ _ ValueRel := bindReceiver related (.object object own)
          ⟨object, d, rfl⟩ fun _ _ _ _ _ bound => newFunction bound
        exact run m r start

theorem boundReceiver {c c' : Closure} {outer : Scopes} (paren : Token)
    (related : ClosureRel W (["this"] :: outer) c c') :
    Sim current W (Run.boundReceiver c paren) (Reference.boundReceiver c' paren) ValueRel := by
  intro m r start
  have found : Scopes.distance? (["this"] :: outer) "this" = some 0 := by
    simp [Scopes.distance?_cons]
  obtain ⟨v, v', value, value', similar, -⟩ := related.linked.bound start found nofun
  have value'' := value' []
  rw [List.append_nil] at value''
  refine Ends.ok ?_ ?_ (.refl _ _) start similar
  · simp only [Run.boundReceiver, Run.read, Bind.bind, EStateM.bind, value]
    rfl
  · simp only [Reference.boundReceiver, Run.read, Bind.bind, EStateM.bind, value'']
    rfl

end Sim

end Lox.Reference
