import Mathlib.Data.List.Forall2
import Mathlib.Data.Option.Basic

namespace Lox

section Parallel

variable {ε ε' σ σ' α α' β β' : Type} {S : σ → σ' → Prop} {E : ε → ε' → Prop} {V : α → α' → Prop}
  {W : β → β' → Prop}

inductive EndsAlike (S : σ → σ' → Prop) (E : ε → ε' → Prop) (V : α → α' → Prop) :
    EStateM.Result ε σ α → EStateM.Result ε' σ' α' → Prop where
  | ok {a : α} {a' : α'} {s : σ} {s' : σ'} (result : V a a') (state : S s s') :
    EndsAlike S E V (.ok a s) (.ok a' s')
  | error {e : ε} {e' : ε'} {s : σ} {s' : σ'} (reason : E e e') (state : S s s') :
    EndsAlike S E V (.error e s) (.error e' s')

/-- From related states the two computations end in the same way, with related results or related
errors, and in related states. -/
def Parallel (S : σ → σ' → Prop) (E : ε → ε' → Prop) (V : α → α' → Prop) (x : EStateM ε σ α)
    (x' : EStateM ε' σ' α') : Prop :=
  ∀ s s', S s s' → EndsAlike S E V (x s) (x' s')

namespace Parallel

variable {x : EStateM ε σ α} {x' : EStateM ε' σ' α'}

theorem pure {a : α} {a' : α'} (h : V a a') : Parallel S E V (Pure.pure a) (Pure.pure a') :=
  fun _ _ state => .ok h state

theorem bind {f : α → EStateM ε σ β} {f' : α' → EStateM ε' σ' β'} (first : Parallel S E V x x')
    (second : ∀ a a', V a a' → Parallel S E W (f a) (f' a')) :
    Parallel S E W (x >>= f) (x' >>= f') := by
  intro s s' state
  have start := first s s' state
  simp only [Bind.bind, EStateM.bind]
  generalize x s = result at start
  generalize x' s' = result' at start
  cases start with
  | ok result state => exact second _ _ result _ _ state
  | error reason state => exact .error reason state

theorem map {f : α → β} {f' : α' → β'} (h : Parallel S E V x x')
    (implies : ∀ a a', V a a' → W (f a) (f' a')) : Parallel S E W (f <$> x) (f' <$> x') :=
  h.bind fun a a' result => pure (implies a a' result)

theorem ite {b b' : Bool} {y : EStateM ε σ α} {y' : EStateM ε' σ' α'} (same : b' = b)
    (yes : Parallel S E V x x') (no : Parallel S E V y y') :
    Parallel S E V (if b then x else y) (if b' then x' else y') := by
  subst same
  cases b' with
  | true => exact yes
  | false => exact no

end Parallel

end Parallel

theorem optionRel_imp {α β : Type} {R R' : α → β → Prop} {a : Option α} {b : Option β}
    (h : Option.Rel R a b) (implies : ∀ a b, R a b → R' a b) : Option.Rel R' a b := by
  cases h with
  | none => exact .none
  | some related => exact .some (implies _ _ related)

end Lox
