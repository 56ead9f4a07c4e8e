import Lox.Proofs.Evaluation.Lookup
import Lox.Proofs.Evaluation.Steps

namespace Lox.Reference

open World

variable {current : Option Nat} {W : World} {pending : Option String} {Γ : Scopes}
  {env cells : Env} {v v' w w' : Value}

namespace Sim

variable {α β γ δ : Type} {R : World → γ → δ → Prop}

theorem openScope {f : Env → Run γ} {y : Run δ} (env : Env)
    (next : W.scopes ≠ 0 → (∀ n, W.cell W.scopes n = none) →
      Sim (some W.scopes) W.enter (f (W.scopes :: env)) y R) :
    Sim current W (Run.openScope env >>= f) y R := by
  intro m r related
  have place : W.scopes ≠ 0 := Nat.ne_of_gt related.somePlace.1
  have free (n : String) : W.cell W.scopes n = none := by
    cases mapped : W.cell W.scopes n with
    | none => rfl
    | some c => exact absurd (related.inRange W.scopes n c mapped).1 (Nat.lt_irrefl _)
  have opened : (Run.openScope env >>= f) m =
      f (W.scopes :: env) { m with store := m.store.newScope.2 } := by
    rw [← related.scopes]
    rfl
  have run := next place free _ r related.enter
  rw [opened]
  exact run.conseq (fun W' grows => (Grows.enter W).within (Nat.le_refl _) grows)
    fun _ _ _ _ holds => holds

theorem newCell {scope : Nat} {name : String} {x : Run γ} {g : Env → Run δ} (place : scope ≠ 0)
    (inside : scope < W.scopes) (free : W.cell scope name = none)
    (next : ∀ c, Sim (some scope) (W.declare scope name c) x (g (c :: cells)) R) :
    Sim (some scope) W x (Reference.newCell cells name v >>= g) R := by
  intro m r related
  have run := next r.store.scopes.size m _ (related.declare v place inside free)
  exact run.conseq (fun W' grows => (Grows.declare free).trans grows) fun _ _ _ _ holds => holds

theorem parameter {scope : Nat} {name : String} {f : Run γ} {g : Env → Run δ} (place : scope ≠ 0)
    (inside : scope < W.scopes) (free : W.cell scope name = none) (related : ValueRel W v v')
    (suits : Suits name v)
    (next : ∀ c, Sim (some scope) ((W.declare scope name c).bind scope name) f (g (c :: cells)) R) :
    Sim (some scope) W (Run.define (scope :: env) name v >>= fun _ => f)
      (Reference.newCell cells name v' >>= g) R := by
  intro m r start
  have declares : Grows (some scope) W (W.declare scope name r.store.scopes.size) :=
    Grows.declare free
  have declared := start.declare v' place inside free
  have mapped : (W.declare scope name r.store.scopes.size).cell scope name =
      some r.store.scopes.size := by simp [World.declare]
  have holds : (r.store.newScope.2.define r.store.scopes.size name v').binding?
      r.store.scopes.size name = some v' := by
    rw [Store.binding?_define, if_pos ⟨rfl, rfl, by simp⟩]
  have grows : Grows (some scope) W ((W.declare scope name r.store.scopes.size).bind scope name) :=
    declares.trans Grows.bind
  have bound := declared.bindTo mapped (related.mono grows) suits rfl rfl rfl holds
    fun _ _ _ => rfl
  have run := next r.store.scopes.size _ _ bound
  exact run.conseq (fun W' further => grows.trans further) fun _ _ _ _ holds => holds

theorem ownScope {name : String} {f : Env → Run γ} {g : Env → Run δ}
    (linked : Linked W none Γ env cells) (related : ValueRel W v v') (suits : Suits name v)
    (next : ∀ W' env' cells', Grows none W W' → Linked W' none ([name] :: Γ) env' cells' →
      Sim none W' (f env') (g cells') R) :
    Sim current W
      (do let extended ← Run.openScope env; Run.define extended name v; f extended)
      (do let extended ← Run.openScope cells; Run.define extended name v'; g extended) R := by
  refine openScope env fun place free => ?_
  have entered : Grows none W W.enter := Grows.enter W
  have made : Sim (some W.scopes) W.enter
      (Run.define (W.scopes :: env) name v >>= fun _ => f (W.scopes :: env))
      (Reference.newCell cells name v' >>= g) R := by
    refine parameter place (Nat.lt_succ_self _) (free name) (related.mono entered) suits
      fun c => ?_
    have declares : Grows (some W.scopes) W.enter (W.enter.declare W.scopes name c) :=
      Grows.declare (free name)
    have grows : Grows none W ((W.enter.declare W.scopes name c).bind W.scopes name) :=
      entered.within (Nat.le_refl _) (declares.trans Grows.bind)
    have mapped : List.Forall₂ (fun n cell =>
        ((W.enter.declare W.scopes name c).bind W.scopes name).cell W.scopes n = some cell ∧
          ((none : Option String) ≠ some n →
            ((W.enter.declare W.scopes name c).bind W.scopes name).bound W.scopes n))
        [name] [c] :=
      .cons ⟨by simp [World.declare, World.bind], fun _ => .inr ⟨rfl, rfl⟩⟩ .nil
    exact (next _ _ _ grows (.scope mapped (linked.mono grows))).loosen
  exact made

theorem declare {name : String} {place : Place} {x : Run γ} {g : Place → Run δ}
    (here : PlaceRel W none Γ env place) (fresh : Γ.IsFresh name)
    (next : ∀ W' place', Grows env.head? W W' →
      PlaceRel W' (Γ.pending name) (Γ.declare name) env place' → Sim env.head? W' x (g place') R) :
    Sim env.head? W x (Reference.declare place name >>= g) R := by
  cases Γ with
  | nil =>
    have isGlobal : place.isLocal = false := here.isLocal
    simp only [Reference.declare, isGlobal, Bool.false_eq_true, if_false, pure_bind]
    exact next W place (.refl _ _) here
  | cons names Γ =>
    have isLocal : place.isLocal = true := here.isLocal
    simp only [Reference.declare, isLocal, if_true, bind_assoc, pure_bind]
    obtain ⟨scope, env, rfl⟩ := here.linked.exists_scope
    obtain ⟨place', inside, exact'⟩ := here.current names rfl scope rfl
    have free : W.cell scope name = none := by
      by_contra declared
      exact fresh names rfl (exact' name declared)
    exact newCell place' inside free fun c => next _ _ (Grows.declare free) (here.declare free c)

theorem define {name : String} {place : Place}
    (here : PlaceRel W (Γ.pending name) (Γ.declare name) env place)
    (related : ∀ W', Grows none W W' → PlaceRel W' none (Γ.declare name) env place →
      ValueRel W' v v')
    (plain : IsPlain name) :
    Sim current W (Run.define env name v) (Run.define place.target name v') fun W' _ _ =>
      PlaceRel W' none (Γ.declare name) env place := by
  cases Γ with
  | nil =>
    have isGlobal : place.isLocal = false := here.isLocal
    have same : env = globals := here.linked.eq_globals.1
    simp only [Place.target, isGlobal, Bool.false_eq_true, if_false, same]
    have value := related W (.refl _ _) here
    exact Sim.step (f := fun m => { m with store := m.store.define 0 name v })
      (g := fun r => { r with store := r.store.define 0 name v' }) (fun _ _ _ => .refl _ _)
      (fun _ _ start => start.defineGlobal name value) (same ▸ here) (fun _ => rfl) fun _ => rfl
  | cons names Γ =>
    obtain ⟨cells, isLocal⟩ := place
    obtain rfl : isLocal = true := here.isLocal
    simp only [Place.target, if_true]
    have linked : Linked W (some name) ((name :: names) :: Γ) env cells := here.linked
    cases linked with
    | @scope _ _ _ scope env own cells each outer =>
      cases each with
      | @cons _ c _ own known others =>
        have value := related (W.bind scope name) .bind here.bind
        exact Sim.step (f := fun m => { m with store := m.store.define scope name v })
          (g := fun r => { r with store := r.store.define c name v' }) (fun _ _ _ => .bind)
          (fun _ _ start => start.bind known.1 value (.plain plain v)) here.bind (fun _ => rfl)
          fun _ => rfl

end Sim

end Lox.Reference
