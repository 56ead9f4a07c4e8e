import Lox.Proofs.Evaluation.Simulation

namespace Lox.Reference

variable {W : World} {m r : Machine}

namespace StateRel

theorem binds_iff (h : StateRel W m r) {scope : Nat} {name : String} {cell : Nat}
    (mapped : W.cell scope name = some cell) (other : String) :
    r.store.binds cell other = decide (other = name) := by
  by_cases same : other = name
  · simp [same, (h.named scope name cell mapped name).mpr rfl]
  · have unbound : r.store.binds cell other ≠ true := fun bound =>
      same ((h.named scope name cell mapped other).mp bound)
    simpa [same] using unbound

theorem passes_over (h : StateRel W m r) {scope : Nat} {names : List String} {own : Env}
    {ready : String → Prop} {name : String} (absent : name ∉ names)
    (each : List.Forall₂ (fun n cell => W.cell scope n = some cell ∧ ready n) names own)
    (more : Env) :
    r.store.bindingScope? (own ++ more) name = r.store.bindingScope? more name := by
  induction each with
  | nil => rfl
  | @cons n cell names own known _ ih =>
    have other : name ≠ n := List.ne_of_not_mem_cons absent
    have further := ih (List.not_mem_of_not_mem_cons absent)
    simp only [Store.bindingScope?] at further ⊢
    rw [List.cons_append, List.find?_cons, h.binds_iff known.1]
    simpa [other] using further

theorem finds_first (h : StateRel W m r) {scope : Nat} {names : List String} {own : Env}
    {ready : String → Prop} {name : String} (declared : name ∈ names)
    (each : List.Forall₂ (fun n cell => W.cell scope n = some cell ∧ ready n) names own) :
    ready name ∧ ∃ cell, W.cell scope name = some cell ∧
      ∀ more, r.store.bindingScope? (own ++ more) name = some cell := by
  induction each with
  | nil => cases declared
  | @cons n cell names own known _ ih =>
    by_cases same : name = n
    · subst same
      refine ⟨known.2, cell, known.1, fun more => ?_⟩
      simp only [Store.bindingScope?]
      rw [List.cons_append, List.find?_cons, h.binds_iff known.1]
      simp
    · have later : name ∈ names := (List.mem_cons.mp declared).resolve_left same
      obtain ⟨ready', cell', mapped, found⟩ := ih later
      refine ⟨ready', cell', mapped, fun more => ?_⟩
      have further := found more
      simp only [Store.bindingScope?] at further ⊢
      rw [List.cons_append, List.find?_cons, h.binds_iff known.1]
      simpa [same] using further

end StateRel

namespace Linked

variable {pending : Option String} {Γ : Scopes} {env cells : Env} {name : String}

theorem global (h : Linked W pending Γ env cells) (related : StateRel W m r)
    (absent : Γ.distance? name = none) (more : Env) :
    r.store.bindingScope? (cells ++ more) name = r.store.bindingScope? more name := by
  induction h with
  | globals => rfl
  | @scope _ names Γ scope env own cells each _ ih =>
    rw [Scopes.distance?_cons] at absent
    by_cases here : name ∈ names
    · simp [here] at absent
    · simp only [here, if_false, Option.map_eq_none_iff] at absent
      rw [List.append_assoc, related.passes_over here each, ih absent]

theorem local' (h : Linked W pending Γ env cells) (related : StateRel W m r) {distance : Nat}
    (found : Γ.distance? name = some distance) :
    ∃ scope cell, env[distance]? = some scope ∧ W.cell scope name = some cell ∧
      (pending ≠ some name → W.bound scope name) ∧
        ∀ more, r.store.bindingScope? (cells ++ more) name = some cell := by
  induction h generalizing distance with
  | globals => simp [Scopes.distance?] at found
  | @scope _ names Γ scope env own cells each _ ih =>
    rw [Scopes.distance?_cons] at found
    by_cases here : name ∈ names
    · simp only [here, if_true, Option.some.injEq] at found
      obtain ⟨ready, cell, mapped, first⟩ := related.finds_first here each
      refine ⟨scope, cell, ?_, mapped, ready, fun more => ?_⟩
      · simp [← found]
      · rw [List.append_assoc]
        exact first (cells ++ more)
    · simp only [here, if_false, Option.map_eq_some_iff] at found
      obtain ⟨outer, found, rfl⟩ := found
      obtain ⟨scope', cell, at', mapped, ready, first⟩ := ih found
      have ready' := ready (Option.some_ne_none name).symm
      refine ⟨scope', cell, at', mapped, fun _ => ready', fun more => ?_⟩
      rw [List.append_assoc, related.passes_over here each]
      exact first more

theorem bound (h : Linked W pending Γ env cells) (related : StateRel W m r) {distance : Nat}
    (found : Γ.distance? name = some distance) (ready : pending ≠ some name) :
    ∃ v v', m.store.getAt? env distance name = some v ∧
      (∀ more, r.store.get? (cells ++ more) name = some v') ∧ ValueRel W v v' ∧ Suits name v := by
  obtain ⟨scope, cell, at', mapped, ready', first⟩ := h.local' related found
  obtain ⟨v, value⟩ := related.isBound scope name (ready' ready)
  obtain ⟨v', value', similar, suits⟩ := related.content scope name cell mapped v value
  refine ⟨v, v', ?_, fun more => ?_, similar, suits⟩
  · rw [Store.getAt?, at', Option.bind_some, value]
  · rw [Store.get?, first more, Option.bind_some, value']

end Linked

end Lox.Reference
