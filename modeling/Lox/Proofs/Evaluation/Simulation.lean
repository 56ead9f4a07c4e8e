import Lox.Proofs.Evaluation.Store
import Lox.Proofs.Evaluation.World

namespace Lox.Reference

open World

def Suits (name : String) (v : Value) : Prop :=
  (name = "this" → ∃ id c, v = .object id c) ∧ (name = "super" → ∃ c, v = .classValue c)

theorem Suits.plain {name : String} (h : IsPlain name) (v : Value) : Suits name v :=
  ⟨fun same => (h.1 same).elim, fun same => (h.2 same).elim⟩

structure StateRel (W : World) (m r : Machine) : Prop where
  locals : m.locals = W.locals
  records : ∀ id token d, W.records id token d → m.locals[id]? = d
  sink : r.sink = m.sink
  clock : r.clock = m.clock
  identity : r.store.nextIdentity = m.store.nextIdentity
  objects : r.store.objects.size = m.store.objects.size
  fields : ∀ object name,
    Option.Rel (ValueRel W) (m.store.field? object name) (r.store.field? object name)
  global : ∀ name, Option.Rel (ValueRel W) (m.store.binding? 0 name) (r.store.binding? 0 name)
  scopes : m.store.scopes.size = W.scopes
  somePlace : 0 < W.scopes ∧ 0 < r.store.scopes.size
  noGlobalCell : ∀ n, W.cell 0 n = none
  inRange : ∀ s n c, W.cell s n = some c → s < W.scopes ∧ 0 < c ∧ c < r.store.scopes.size
  distinct : ∀ s n s' n' c, W.cell s n = some c → W.cell s' n' = some c → s = s' ∧ n = n'
  named : ∀ s n c, W.cell s n = some c → ∀ n', r.store.binds c n' = true ↔ n' = n
  content : ∀ s n c, W.cell s n = some c → ∀ v, m.store.binding? s n = some v →
    ∃ v', r.store.binding? c n = some v' ∧ ValueRel W v v' ∧ Suits n v
  undeclared : ∀ s n, s ≠ 0 → W.cell s n = none → m.store.binding? s n = none
  isBound : ∀ s n, W.bound s n → ∃ v, m.store.binding? s n = some v

/-- Why a run may stop: never for a failure of static resolution, and for an undefined name only if
the occurrence has no distance and the name is not bound among the globals. -/
def Explained (W : World) (m : Machine) : Stop → Prop
  | .error ⟨.undefinedLocal _, _⟩ | .error ⟨.superUnresolved, _⟩ | .error ⟨.superUnbound _, _⟩
  | .error ⟨.superWithoutReceiver, _⟩ | .error ⟨.initializerUnbound, _⟩ => False
  | .error ⟨.undefinedGlobal name, token⟩ =>
    name = token.lexeme ∧ (∃ id, W.records id token none) ∧ m.store.get? globals name = none
  | _ => True

variable {α β γ δ : Type}

/-- Both runs end in the same way, and the world has grown. -/
def Ends (current : Option Nat) (W : World) (Q : World → α → β → Prop) :
    EStateM.Result Stop Machine α → EStateM.Result Stop Machine β → Prop
  | .ok a m, .ok b r => ∃ W', Grows current W W' ∧ StateRel W' m r ∧ Q W' a b
  | .error stop m, .error stop' r =>
    stop' = stop ∧ ∃ W', Grows current W W' ∧ StateRel W' m r ∧ Explained W' m stop
  | _, _ => False

theorem Ends.conseq {current current' : Option Nat} {W W₀ : World} {Q Q' : World → α → β → Prop}
    {p : EStateM.Result Stop Machine α} {q : EStateM.Result Stop Machine β}
    (h : Ends current W Q p q) (grow : ∀ W', Grows current W W' → Grows current' W₀ W')
    (implies : ∀ W' a b, Grows current W W' → Q W' a b → Q' W' a b) :
    Ends current' W₀ Q' p q := by
  cases p with
  | error stop m =>
    cases q with
    | error stop' r =>
      obtain ⟨same, W', grows, rest⟩ := h
      exact ⟨same, W', grow W' grows, rest⟩
    | ok b r => exact h.elim
  | ok a m =>
    cases q with
    | error stop' r => exact h.elim
    | ok b r =>
      obtain ⟨W', grows, related, holds⟩ := h
      exact ⟨W', grow W' grows, related, implies W' a b grows holds⟩

/-- From related machines the two runs end in the same way, with related machines and results, in a
world that has grown. -/
def Sim (current : Option Nat) (W : World) (x : Run α) (y : Run β) (Q : World → α → β → Prop) :
    Prop :=
  ∀ m r, StateRel W m r → Ends current W Q (x m) (y r)

namespace Sim

variable {current : Option Nat} {W : World} {x : Run α} {y : Run β} {Q : World → α → β → Prop}
  {R : World → γ → δ → Prop}

theorem pure {a : α} {b : β} (h : Q W a b) : Sim current W (Pure.pure a) (Pure.pure b) Q :=
  fun _ _ related => ⟨W, .refl _ _, related, h⟩

theorem seq {before behind : Option Nat} {f : α → Run γ} {g : β → Run δ}
    (first : Sim before W x y Q) (out : ∀ W', Grows before W W' → Grows current W W')
    (second : ∀ W' a b, Grows before W W' → Q W' a b → Sim behind W' (f a) (g b) R)
    (out' : ∀ W' W'', Grows before W W' → Grows behind W' W'' → Grows current W W'') :
    Sim current W (x >>= f) (y >>= g) R := by
  intro m r related
  have start := first m r related
  simp only [Bind.bind, EStateM.bind]
  cases hx : x m with
  | error stop m' =>
    cases hy : y r with
    | error stop' r' =>
      rw [hx, hy] at start
      obtain ⟨same, W', grows, rest⟩ := start
      exact ⟨same, W', out W' grows, rest⟩
    | ok b r' =>
      rw [hx, hy] at start
      exact start.elim
  | ok a m' =>
    cases hy : y r with
    | error stop' r' =>
      rw [hx, hy] at start
      exact start.elim
    | ok b r' =>
      rw [hx, hy] at start
      obtain ⟨W', grows, related', holds⟩ := start
      have further := second W' a b grows holds m' r' related'
      exact further.conseq (fun W'' grows' => out' W' W'' grows grows') fun _ _ _ _ end' => end'

theorem bind {f : α → Run γ} {g : β → Run δ} (first : Sim current W x y Q)
    (second : ∀ W' a b, Grows current W W' → Q W' a b → Sim current W' (f a) (g b) R) :
    Sim current W (x >>= f) (y >>= g) R :=
  first.seq (fun _ grows => grows) second fun _ _ => .trans

theorem after {g : β → Run δ} {R : World → α → δ → Prop} (first : Sim current W x y Q)
    (second : ∀ W' a b, Grows current W W' → Q W' a b → Sim current W' (Pure.pure a) (g b) R) :
    Sim current W x (y >>= g) R := by
  have both := first.bind second
  rwa [bind_pure] at both

theorem bindNone {f : α → Run γ} {g : β → Run δ} (first : Sim none W x y Q)
    (second : ∀ W' a b, Grows none W W' → Q W' a b → Sim current W' (f a) (g b) R) :
    Sim current W (x >>= f) (y >>= g) R :=
  first.seq (fun _ grows => grows.loosen) second fun _ _ grows grows' => grows.loosen.trans grows'

theorem loosen (h : Sim none W x y Q) : Sim current W x y Q :=
  fun m r related =>
    (h m r related).conseq (fun _ grows => grows.loosen) fun _ _ _ _ holds => holds

theorem stop (reason : Stop) (h : ∀ m, Explained W m reason) :
    Sim current W (Run.stop reason : Run α) (Run.stop reason : Run β) Q :=
  fun m _ related => ⟨rfl, W, .refl _ _, related, h m⟩

theorem step {a : α} {b : β} {f g : Machine → Machine} {W' : World}
    (grows : ∀ m r, StateRel W m r → Grows current W W')
    (related : ∀ m r, StateRel W m r → StateRel W' (f m) (g r)) (holds : Q W' a b)
    (hx : ∀ m, x m = .ok a (f m)) (hy : ∀ r, y r = .ok b (g r)) : Sim current W x y Q := by
  intro m r start
  rw [hx, hy]
  exact ⟨W', grows m r start, related m r start, holds⟩

end Sim

end Lox.Reference
