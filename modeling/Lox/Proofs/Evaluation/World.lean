import Lox.Proofs.Evaluation.Reference
import Lox.Proofs.Resolution.Scopes
import Mathlib.Data.Option.Basic
import Mathlib.Data.List.Forall2

namespace Lox.Reference

/-- `cell` gives the cell of a declared name. A declared name is `bound` once it has a value, which
takes until its initializer has run. `scopes` is the number of scopes made so far. Of the distances
in `locals` those of the `records` belong to occurrences that may be evaluated. -/
structure World where
  cell : Nat → String → Option Nat
  bound : Nat → String → Prop
  scopes : Nat
  locals : Locals
  records : Records

namespace World

def enter (W : World) : World := { W with scopes := W.scopes + 1 }

def declare (W : World) (scope : Nat) (name : String) (cell : Nat) : World :=
  { W with cell := fun s n => if s = scope ∧ n = name then some cell else W.cell s n }

def bind (W : World) (scope : Nat) (name : String) : World :=
  { W with bound := fun s n => W.bound s n ∨ (s = scope ∧ n = name) }

structure Extends (W W' : World) : Prop where
  cell : ∀ s n c, W.cell s n = some c → W'.cell s n = some c
  bound : ∀ s n, W.bound s n → W'.bound s n
  scopes : W.scopes ≤ W'.scopes
  records : W.records.Grow W'.records

/-- What a run may do: declare new names, but only in new scopes and in the current one. -/
structure Grows (current : Option Nat) (W W' : World) : Prop extends Extends W W' where
  fixed : W'.records = W.records ∧ W'.locals = W.locals
  kept : ∀ s, s < W.scopes → some s ≠ current → W'.cell s = W.cell s

namespace Grows

variable {current : Option Nat} {W W' W'' : World}

instance : CoeOut (Grows current W W') (Extends W W') := ⟨Grows.toExtends⟩

theorem refl (current : Option Nat) (W : World) : Grows current W W where
  cell _ _ _ h := h
  bound _ _ h := h
  scopes := Nat.le_refl _
  records _ _ _ h := h
  fixed := ⟨rfl, rfl⟩
  kept _ _ _ := rfl

theorem trans (first : Grows current W W') (second : Grows current W' W'') :
    Grows current W W'' where
  cell s n c h := second.cell s n c (first.cell s n c h)
  bound s n h := second.bound s n (first.bound s n h)
  scopes := Nat.le_trans first.scopes second.scopes
  records id name d h := second.records id name d (first.records id name d h)
  fixed := ⟨second.fixed.1.trans first.fixed.1, second.fixed.2.trans first.fixed.2⟩
  kept s old other := by
    have later := second.kept s (Nat.lt_of_lt_of_le old first.scopes) other
    rw [later, first.kept s old other]

theorem loosen (h : Grows none W W') : Grows current W W' :=
  { h with kept := fun s old _ => h.kept s old nofun }

theorem within {scope : Nat} (first : Grows current W W') (isNew : W.scopes ≤ scope)
    (second : Grows (some scope) W' W'') : Grows current W W'' where
  cell s n c h := second.cell s n c (first.cell s n c h)
  bound s n h := second.bound s n (first.bound s n h)
  scopes := Nat.le_trans first.scopes second.scopes
  records id name d h := second.records id name d (first.records id name d h)
  fixed := ⟨second.fixed.1.trans first.fixed.1, second.fixed.2.trans first.fixed.2⟩
  kept s old other := by
    have later := second.kept s (Nat.lt_of_lt_of_le old first.scopes) (by
      intro same
      cases same
      omega)
    rw [later, first.kept s old other]

theorem enter (W : World) : Grows current W W.enter where
  cell _ _ _ h := h
  bound _ _ h := h
  scopes := Nat.le_succ _
  records _ _ _ h := h
  fixed := ⟨rfl, rfl⟩
  kept _ _ _ := rfl

theorem declare {scope : Nat} {name : String} {cell : Nat} (free : W.cell scope name = none) :
    Grows (some scope) W (W.declare scope name cell) where
  cell s n c h := by
    have other : ¬ (s = scope ∧ n = name) := by
      rintro ⟨rfl, rfl⟩
      simp [free] at h
    simpa [World.declare, other] using h
  bound _ _ h := h
  scopes := Nat.le_refl _
  records _ _ _ h := h
  fixed := ⟨rfl, rfl⟩
  kept s _ other := by
    have outside : s ≠ scope := fun same => other (congrArg some same)
    funext n
    simp [World.declare, outside]

theorem bind {scope : Nat} {name : String} : Grows current W (W.bind scope name) where
  cell _ _ _ h := h
  bound _ _ h := .inl h
  scopes := Nat.le_refl _
  records _ _ _ h := h
  fixed := ⟨rfl, rfl⟩
  kept _ _ _ := rfl

end Grows

end World

open World

/-- The scopes of an environment have declared exactly the names of the static scopes around a
place, and the visible cells are those of these names. -/
inductive Linked (W : World) : Option String → Scopes → Env → Env → Prop where
  | globals {pending : Option String} : Linked W pending [] globals []
  | scope {pending : Option String} {names : List String} {Γ : Scopes} {scope : Nat}
    {env own cells : Env}
    (each : List.Forall₂ (fun name cell =>
      W.cell scope name = some cell ∧ (pending ≠ some name → W.bound scope name)) names own)
    (outer : Linked W none Γ env cells) :
    Linked W pending (names :: Γ) (scope :: env) (own ++ cells)

theorem Linked.mono {W W' : World} {pending : Option String} {Γ : Scopes} {env cells : Env}
    (h : Linked W pending Γ env cells) (grows : Extends W W') :
    Linked W' pending Γ env cells := by
  induction h with
  | globals => exact .globals
  | scope each _ ih =>
    refine .scope (each.imp fun name cell known => ?_) ih
    exact ⟨grows.cell _ _ _ known.1, fun ready => grows.bound _ _ (known.2 ready)⟩

theorem Linked.eq_globals {W : World} {pending : Option String} {env cells : Env}
    (h : Linked W pending [] env cells) : env = Lox.globals ∧ cells = [] := by
  cases h
  exact ⟨rfl, rfl⟩

theorem Linked.exists_scope {W : World} {pending : Option String} {names : List String} {Γ : Scopes}
    {env cells : Env} (h : Linked W pending (names :: Γ) env cells) :
    ∃ scope outer, env = scope :: outer := by
  cases h
  exact ⟨_, _, rfl⟩

theorem Linked.pend {W : World} {Γ : Scopes} {env cells : Env} (h : Linked W none Γ env cells)
    (pending : Option String) : Linked W pending Γ env cells := by
  cases h with
  | globals => exact .globals
  | scope each outer =>
    exact .scope (each.imp fun _ _ known => ⟨known.1, fun _ => known.2 nofun⟩) outer

/-- The scope in which declarations take effect, if it is not the global one, has no other
declarations than the static one. -/
def Current (W : World) (Γ : Scopes) (env : Env) : Prop :=
  ∀ names ∈ Γ.head?, ∀ scope ∈ env.head?,
    scope ≠ 0 ∧ scope < W.scopes ∧ ∀ n, W.cell scope n ≠ none → n ∈ names

theorem Current.mono {W W' : World} {Γ : Scopes} {env : Env} (h : Current W Γ env)
    (grows : Grows none W W') : Current W' Γ env := by
  intro names hnames scope hscope
  obtain ⟨place, old, exact'⟩ := h names hnames scope hscope
  refine ⟨place, Nat.lt_of_lt_of_le old grows.scopes, fun n declared => ?_⟩
  rw [grows.kept scope old nofun] at declared
  exact exact' n declared

/-- The same place in a text for both evaluators. -/
structure PlaceRel (W : World) (pending : Option String) (Γ : Scopes) (env : Env) (place : Place) :
    Prop where
  linked : Linked W pending Γ env place.cells
  current : Current W Γ env
  isLocal : place.isLocal = !Γ.isEmpty

theorem PlaceRel.mono {W W' : World} {pending : Option String} {Γ : Scopes} {env : Env}
    {place : Place} (h : PlaceRel W pending Γ env place) (grows : Grows none W W') :
    PlaceRel W' pending Γ env place :=
  ⟨h.linked.mono grows, h.current.mono grows, h.isLocal⟩

theorem PlaceRel.pend {W : World} {Γ : Scopes} {env : Env} {place : Place}
    (h : PlaceRel W none Γ env place) (pending : Option String) :
    PlaceRel W pending Γ env place :=
  { h with linked := h.linked.pend pending }

theorem PlaceRel.enter {W : World} {Γ : Scopes} {env cells : Env} (linked : Linked W none Γ env cells)
    (place : W.scopes ≠ 0) (free : ∀ n, W.cell W.scopes n = none) :
    PlaceRel W.enter none ([] :: Γ) (W.scopes :: env) (.inside cells) := by
  have grows : Grows none W W.enter := Grows.enter W
  refine ⟨.scope .nil (linked.mono grows), ?_, rfl⟩
  intro names hnames scope hscope
  cases hnames
  cases hscope
  exact ⟨place, Nat.lt_succ_self _, fun n declared => absurd (free n) declared⟩

theorem PlaceRel.declare {W : World} {names : List String} {Γ : Scopes} {scope : Nat} {env : Env}
    {place : Place} {name : String} (here : PlaceRel W none (names :: Γ) (scope :: env) place)
    (free : W.cell scope name = none) (cell : Nat) :
    PlaceRel (W.declare scope name cell) (some name) ((name :: names) :: Γ) (scope :: env)
      (.inside (cell :: place.cells)) := by
  obtain ⟨linked, current, -⟩ := here
  have grows : Grows (some scope) W (W.declare scope name cell) := Grows.declare free
  obtain ⟨place', inside, exact'⟩ := current names rfl scope rfl
  refine ⟨?_, ?_, rfl⟩
  · generalize place.cells = cells at linked
    cases linked with
    | @scope _ _ _ _ _ own cells each outer =>
      have others := each.imp fun n c (known : W.cell scope n = some c ∧
          (none ≠ some n → W.bound scope n)) =>
        (⟨grows.cell _ _ _ known.1, fun _ => known.2 nofun⟩ :
          (W.declare scope name cell).cell scope n = some c ∧
            (some name ≠ some n → W.bound scope n))
      have first : (W.declare scope name cell).cell scope name = some cell := by
        simp [World.declare]
      have all : List.Forall₂ _ (name :: names) (cell :: own) :=
        .cons ⟨first, fun other => absurd rfl other⟩ others
      exact .scope all (outer.mono grows)
  · intro names' hnames scope' hscope
    cases hnames
    cases hscope
    refine ⟨place', inside, fun n declared => ?_⟩
    by_cases same : n = name
    · exact List.mem_cons.mpr (.inl same)
    · refine List.mem_cons_of_mem _ (exact' n ?_)
      simpa [World.declare, same] using declared

theorem PlaceRel.bind {W : World} {names : List String} {Γ : Scopes} {scope : Nat} {env : Env}
    {place : Place} {name : String}
    (here : PlaceRel W (some name) ((name :: names) :: Γ) (scope :: env) place) :
    PlaceRel (W.bind scope name) none ((name :: names) :: Γ) (scope :: env) place := by
  obtain ⟨linked, current, isLocal⟩ := here
  have grows : Grows none W (W.bind scope name) := Grows.bind
  refine ⟨?_, current.mono grows, isLocal⟩
  generalize place.cells = cells at linked
  cases linked with
  | scope each outer =>
    refine .scope (each.imp fun n c known => ⟨known.1, fun _ => ?_⟩) (outer.mono grows)
    by_cases same : n = name
    · exact .inr ⟨rfl, same⟩
    · exact .inl (known.2 fun same' => same (Option.some.inj same').symm)

structure ClosureRel (W : World) (Γ : Scopes) (c c' : Closure) : Prop where
  declaration : c'.declaration = c.declaration
  isInitializer : c'.isInitializer = c.isInitializer
  linked : Linked W none Γ c.env c'.env

/-- A function that can be called. An initializer has its receiver in its innermost scope. -/
def FunctionRel (W : World) (c c' : Closure) : Prop :=
  ∃ Γ, ClosureRel W Γ c c' ∧ Stmt.FunctionResolved W.records Γ c.declaration ∧
    (c.isInitializer = true → ∃ outer, Γ = ["this"] :: outer)

def MethodRel (W : World) (c c' : Closure) : Prop :=
  ∃ Γ, ClosureRel W Γ c c' ∧ Stmt.FunctionResolved W.records (["this"] :: Γ) c.declaration

structure ClassRel (W : World) (c c' : Class) : Prop where
  id : c'.id = c.id
  name : c'.name = c.name
  methods : ∀ name, Option.Rel (MethodRel W) (c.findMethod name) (c'.findMethod name)

inductive ValueRel (W : World) : Value → Value → Prop where
  | nil : ValueRel W .nil .nil
  | bool (b : Bool) : ValueRel W (.bool b) (.bool b)
  | number (x : Float) : ValueRel W (.number x) (.number x)
  | string (s : String) : ValueRel W (.string s) (.string s)
  | native (f : Native) : ValueRel W (.native f) (.native f)
  | function (id : Nat) {c c' : Closure} (h : FunctionRel W c c') :
    ValueRel W (.function id c) (.function id c')
  | classValue {c c' : Class} (h : ClassRel W c c') : ValueRel W (.classValue c) (.classValue c')
  | object (id : Nat) {c c' : Class} (h : ClassRel W c c') :
    ValueRel W (.object id c) (.object id c')

section Mono

variable {W W' : World} (grows : Extends W W')
include grows

theorem ClosureRel.mono {Γ : Scopes} {c c' : Closure} (h : ClosureRel W Γ c c') :
    ClosureRel W' Γ c c' :=
  { h with linked := h.linked.mono grows }

theorem FunctionRel.mono {c c' : Closure} (h : FunctionRel W c c') : FunctionRel W' c c' := by
  obtain ⟨Γ, closure, resolved, receiver⟩ := h
  exact ⟨Γ, closure.mono grows, Stmt.FunctionResolved.mono grows.records _ resolved, receiver⟩

theorem MethodRel.mono {c c' : Closure} (h : MethodRel W c c') : MethodRel W' c c' := by
  obtain ⟨Γ, closure, resolved⟩ := h
  exact ⟨Γ, closure.mono grows, Stmt.FunctionResolved.mono grows.records _ resolved⟩

theorem ClassRel.mono {c c' : Class} (h : ClassRel W c c') : ClassRel W' c c' where
  id := h.id
  name := h.name
  methods name := by
    have related := h.methods name
    revert related
    generalize c.findMethod name = found
    generalize c'.findMethod name = found'
    rintro (method | -)
    · exact .some (method.mono grows)
    · exact .none

theorem ValueRel.mono {v v' : Value} (h : ValueRel W v v') : ValueRel W' v v' := by
  cases h with
  | nil => exact .nil
  | bool b => exact .bool b
  | number x => exact .number x
  | string s => exact .string s
  | native f => exact .native f
  | function id h => exact .function id (h.mono grows)
  | classValue h => exact .classValue (h.mono grows)
  | object id h => exact .object id (h.mono grows)

theorem optionRel_mono {v v' : Option Value} (h : Option.Rel (ValueRel W) v v') :
    Option.Rel (ValueRel W') v v' := by
  cases h with
  | some related => exact .some (related.mono grows)
  | none => exact .none

theorem valuesRel_mono {vs vs' : List Value} (h : List.Forall₂ (ValueRel W) vs vs') :
    List.Forall₂ (ValueRel W') vs vs' :=
  h.imp fun _ _ related => related.mono grows

end Mono

section Observe

variable {W : World} {v v' w w' : Value}

theorem ValueRel.isTruthy (h : ValueRel W v v') : v'.isTruthy = v.isTruthy := by
  cases h <;> rfl

theorem ValueRel.display (h : ValueRel W v v') : v'.display = v.display := by
  cases h with
  | function id h =>
    obtain ⟨Γ, closure, -⟩ := h
    simp only [Value.display, Closure.name, closure.declaration]
  | classValue h => exact h.name
  | object id h => simp only [Value.display, h.name]
  | _ => rfl

theorem ValueRel.equals (h : ValueRel W v v') (k : ValueRel W w w') :
    v'.equals w' = v.equals w := by
  cases h with
  | classValue h =>
    cases k with
    | classValue k => simp only [Value.equals, h.id, k.id]
    | _ => rfl
  | _ => cases k <;> rfl

theorem ValueRel.arity? (h : ValueRel W v v') : v'.arity? = v.arity? := by
  cases h with
  | function id h =>
    obtain ⟨Γ, closure, -⟩ := h
    simp only [Value.arity?, Closure.arity, closure.declaration]
  | classValue h =>
    have related := h.methods initializerName
    simp only [Value.arity?, Class.arity]
    revert related
    generalize Class.findMethod initializerName _ = found
    generalize Class.findMethod initializerName _ = found'
    rintro (method | -)
    · obtain ⟨Γ, closure, -⟩ := method
      simp only [Closure.arity, closure.declaration]
    · rfl
  | _ => rfl

end Observe

end Lox.Reference
