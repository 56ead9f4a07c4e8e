import Lox.Proofs.Trace.Following

namespace Lox

/-- A machine, and the entries so far, earliest first. -/
structure Logged (ε : Type) where
  machine : Machine
  log : List ε

abbrev Logging (ε : Type) := EStateM Stop (Logged ε)

namespace Logging

variable {ε α β : Type}

def silent (step : Run α) : Logging ε α := fun s =>
  match step s.machine with
  | .ok a m => .ok a { s with machine := m }
  | .error reason m => .error reason { s with machine := m }

def note (entry : Machine → ε) : Logging ε Unit :=
  modify fun s => { s with log := s.log ++ [entry s.machine] }

/-- An entry behind an action that ends well, about the state in front of it, its result and the
machine behind it. -/
def noting (entry : Logged ε → α → Machine → ε) (action : Logging ε α) : Logging ε α := fun s =>
  match action s with
  | .ok a s' => .ok a { s' with log := s'.log ++ [entry s a s'.machine] }
  | .error reason s' => .error reason s'

/-- An entry behind an action, however it ended, with the stores around it. -/
def recording (entry : Bool → Store → Store → ε) (action : Logging ε α) : Logging ε α := fun s =>
  match action s with
  | .ok a s' => .ok a { s' with log := s'.log ++ [entry true s.machine.store s'.machine.store] }
  | .error reason s' =>
    .error reason { s' with log := s'.log ++ [entry false s.machine.store s'.machine.store] }

/-- The machine takes its steps, and what is done around them makes entries. -/
def runner (around : {α : Type} → Activity α → Logging ε α → Logging ε α) : Runner (Logging ε) :=
  ⟨silent, around⟩

theorem silent_bind (x : Run α) (f : α → Run β) :
    (silent (x >>= f) : Logging ε β) = silent x >>= fun a => silent (f a) := by
  funext s
  simp only [silent, Bind.bind, EStateM.bind]
  cases x s.machine <;> rfl

section Ends

variable {s s' : Logged ε} {a : α} {b : β}

theorem bind_eq_ok {x : Logging ε α} {f : α → Logging ε β} :
    (x >>= f) s = .ok b s' ↔ ∃ a s₁, x s = .ok a s₁ ∧ f a s₁ = .ok b s' := by
  simp only [Bind.bind, EStateM.bind]
  cases x s with
  | ok a s₁ =>
    constructor
    · exact fun ends => ⟨a, s₁, rfl, ends⟩
    · rintro ⟨_, _, ⟨⟩, ends⟩
      exact ends
  | error reason s₁ => simp

theorem silent_eq_ok {step : Run α} :
    silent step s = .ok a s' ↔ step s.machine = .ok a s'.machine ∧ s'.log = s.log := by
  simp only [silent]
  cases step s.machine with
  | ok b m =>
    obtain ⟨machine, log⟩ := s'
    simp [eq_comm (a := log), and_assoc]
  | error reason m => simp

theorem noting_eq_ok {entry : Logged ε → α → Machine → ε} {action : Logging ε α} :
    noting entry action s = .ok a s' ↔
      ∃ s₁, action s = .ok a s₁ ∧ s'.machine = s₁.machine ∧
        s'.log = s₁.log ++ [entry s a s₁.machine] := by
  simp only [noting]
  cases action s with
  | ok b s₁ =>
    obtain ⟨machine, log⟩ := s'
    constructor
    · intro ends
      cases ends
      exact ⟨s₁, rfl, rfl, rfl⟩
    · rintro ⟨s₂, ends, rfl, rfl⟩
      cases ends
      rfl
  | error reason s₁ => simp

end Ends

/-- Without its entries the action is the plain one, and entries are only added. -/
def Forgets (x : Logging ε α) (y : Run α) : Prop :=
  ∀ s, onState Logged.machine (x s) = y s.machine ∧ s.log <+: (lastState (x s)).log

namespace Forgets

variable {x : Logging ε α} {y : Run α}

theorem eq_ok (h : Forgets x y) {s : Logged ε} {a : α} {m : Machine} (ends : y s.machine = .ok a m) :
    ∃ s', x s = .ok a s' ∧ s'.machine = m := by
  have same := (h s).1
  rw [ends] at same
  cases result : x s with
  | ok b s' =>
    rw [result] at same
    cases same
    exact ⟨s', rfl, rfl⟩
  | error reason s' =>
    rw [result] at same
    cases same

theorem lastState (h : Forgets x y) (s : Logged ε) :
    (Lox.lastState (x s)).machine = Lox.lastState (y s.machine) := by
  rw [← (h s).1, lastState_onState]

theorem pure (a : α) : Forgets (Pure.pure a : Logging ε α) (Pure.pure a) :=
  fun s => ⟨rfl, List.prefix_refl s.log⟩

theorem silent (y : Run α) : Forgets (Logging.silent y : Logging ε α) y := by
  intro s
  simp only [Logging.silent]
  cases y s.machine <;> exact ⟨rfl, List.prefix_refl _⟩

theorem bind {f : α → Logging ε β} {g : α → Run β} (first : Forgets x y)
    (second : ∀ a, Forgets (f a) (g a)) : Forgets (x >>= f) (y >>= g) := by
  intro s
  obtain ⟨same, grows⟩ := first s
  simp only [Bind.bind, EStateM.bind, ← same]
  cases ends : x s with
  | ok a s' =>
    rw [ends] at grows
    exact ⟨(second a s').1, grows.trans (second a s').2⟩
  | error reason s' =>
    rw [ends] at grows
    exact ⟨rfl, grows⟩

theorem note {entry : Machine → ε} (h : Forgets x y) :
    Forgets (do Logging.note entry; x) y := by
  intro s
  have rest := h { s with log := s.log ++ [entry s.machine] }
  exact ⟨rest.1, (List.prefix_append _ _).trans rest.2⟩

theorem noting {entry : Logged ε → α → Machine → ε} (h : Forgets x y) :
    Forgets (Logging.noting entry x) y := by
  intro s
  obtain ⟨same, grows⟩ := h s
  simp only [Logging.noting, ← same]
  cases ends : x s with
  | ok a s' =>
    rw [ends] at grows
    exact ⟨rfl, grows.trans (List.prefix_append _ _)⟩
  | error reason s' =>
    rw [ends] at grows
    exact ⟨rfl, grows⟩

theorem recording {entry : Bool → Store → Store → ε} (h : Forgets x y) :
    Forgets (Logging.recording entry x) y := by
  intro s
  obtain ⟨same, grows⟩ := h s
  simp only [Logging.recording, ← same]
  cases ends : x s with
  | ok a s' =>
    rw [ends] at grows
    exact ⟨rfl, grows.trans (List.prefix_append _ _)⟩
  | error reason s' =>
    rw [ends] at grows
    exact ⟨rfl, grows.trans (List.prefix_append _ _)⟩

/-- Runs forget their entries if what is done around an activity does. -/
theorem follows {around : {α : Type} → Activity α → Logging ε α → Logging ε α}
    (adds : ∀ {α : Type} (activity : Activity α) {x : Logging ε α} {y : Run α},
      Forgets x y → Forgets (around activity x) y) :
    (runner around).Follows fun _ x y => Forgets x y where
  pure := pure
  bind := bind
  quiet _ := silent _
  printLine text := adds (.printing text) (silent _)
  around _ := adds _

theorem interpret {around : {α : Type} → Activity α → Logging ε α → Logging ε α}
    (follows : (runner around).Follows fun _ x y => Forgets x y) (fuel : Nat)
    (statements : List Stmt) (locals : Locals) :
    Forgets ((runner around).dialect.interpret globals fuel statements locals)
      (Run.interpret fuel statements locals) :=
  (silent (Run.learn locals)).bind fun _ => follows.program fuel statements

end Forgets

end Logging

end Lox
