import Lox.Parser

namespace Lox.Parser

variable {α β : Type}

theorem bind_ok {p : Parser α} {f : α → Parser β} {a : α} {s t : State} (h : p s = .ok a t) :
    (p >>= f) s = f a t := by
  simp only [bind, EStateM.bind, h]

theorem bind_error {p : Parser α} {f : α → Parser β} {e : ParseError} {s t : State}
    (h : p s = .error e t) : (p >>= f) s = .error e t := by
  simp only [bind, EStateM.bind, h]

theorem takeIf_some {q : Kind → Bool} {s : State} {t : Token} {rest : List Token}
    (head : s.rest = t :: rest) (h : q t.kind = true) :
    takeIf q s = .ok (some t) { s with rest := rest } := by
  simp [takeIf, head, h]

theorem takeIf_none {q : Kind → Bool} {s : State} (h : ∀ t ∈ s.rest.head?, q t.kind = false) :
    takeIf q s = .ok none s := by
  cases hr : s.rest with
  | nil => simp [takeIf, hr]
  | cons t rest =>
    have no : q t.kind = false := h t (by simp [hr])
    simp [takeIf, hr, no]

/-- When `p` succeeds without recording an error, `R` holds of its result, the tokens it read and
the tokens behind them. -/
def Sound (p : Parser α) (R : α → List Token → List Token → Prop) : Prop :=
  ∀ s, match p s with
    | .ok a s' =>
      ∃ new, s'.errors = s.errors ++ new ∧
        (new = [] → ∃ read, s.rest = read ++ s'.rest ∧ R a read s'.rest)
    | .error _ s' => ∃ new, s'.errors = s.errors ++ new

namespace Sound

variable {p : Parser α} {R : α → List Token → List Token → Prop}
  {T : β → List Token → List Token → Prop}

theorem pure {a : α} (h : ∀ rest, R a [] rest) : Sound (Pure.pure a) R :=
  fun s => ⟨[], (List.append_nil _).symm, fun _ => ⟨[], rfl, h s.rest⟩⟩

theorem bind {f : α → Parser β} (first : Sound p R)
    (second : ∀ a us, Sound (f a) fun b vs rest => R a us (vs ++ rest) → T b (us ++ vs) rest) :
    Sound (p >>= f) T := by
  intro s
  have start := first s
  cases hp : p s with
  | error e s' =>
    rw [hp] at start
    rw [bind_error hp]
    exact start
  | ok a s' =>
    rw [hp] at start
    rw [bind_ok hp]
    obtain ⟨new, errors, holds⟩ := start
    cases hf : f a s' with
    | error e t =>
      have further := second a [] s'
      simp only [hf] at further ⊢
      obtain ⟨more, errors'⟩ := further
      exact ⟨new ++ more, by rw [errors', errors, List.append_assoc]⟩
    | ok b t =>
      have further := fun us => second a us s'
      simp only [hf] at further ⊢
      obtain ⟨more, errors', -⟩ := further []
      refine ⟨new ++ more, by rw [errors', errors, List.append_assoc], fun none => ?_⟩
      obtain ⟨noneBefore, noneAfter⟩ := List.append_eq_nil_iff.mp none
      obtain ⟨us, rest, first⟩ := holds noneBefore
      obtain ⟨more', again, holds'⟩ := further us
      have same : more' = more := List.append_cancel_left (again.symm.trans errors')
      obtain ⟨vs, rest', then'⟩ := holds' (same.trans noneAfter)
      exact ⟨us ++ vs, by rw [rest, rest', List.append_assoc], then' (rest' ▸ first)⟩

theorem weaken {R' : α → List Token → List Token → Prop} (h : Sound p R)
    (implies : ∀ a read rest, R a read rest → R' a read rest) : Sound p R' := by
  intro s
  have start := h s
  cases hp : p s with
  | error e s' => simpa only [hp] using start
  | ok a s' =>
    simp only [hp] at start ⊢
    obtain ⟨new, errors, holds⟩ := start
    refine ⟨new, errors, fun none => ?_⟩
    obtain ⟨read, rest, first⟩ := holds none
    exact ⟨read, rest, implies _ _ _ first⟩

theorem map {f : α → β} (h : Sound p R)
    (implies : ∀ a read rest, R a read rest → T (f a) read rest) : Sound (f <$> p) T :=
  h.bind fun a us => pure fun rest holds => by
    simpa using implies a us rest holds

theorem ite {c : Prop} [Decidable c] {q : Parser α} (yes : c → Sound p R) (no : ¬ c → Sound q R) :
    Sound (if c then p else q) R := by
  split
  · exact yes ‹_›
  · exact no ‹_›

theorem fail (cause : ParseError.Cause) : Sound (Parser.fail cause) R :=
  fun _ => ⟨[], (List.append_nil _).symm⟩

theorem report (cause : ParseError.Cause) (token : Token) :
    Sound (Parser.report cause token) fun _ _ _ => False :=
  fun _ => ⟨_, rfl, fun none => (List.cons_ne_nil _ _ none).elim⟩

theorem reportHere (cause : ParseError.Cause) : Sound (Parser.reportHere cause) fun _ _ _ => False :=
  fun _ => ⟨_, rfl, fun none => (List.cons_ne_nil _ _ none).elim⟩

theorem freshId : Sound Parser.freshId fun _ read _ => read = [] :=
  fun _ => ⟨[], (List.append_nil _).symm, fun _ => ⟨[], rfl, rfl⟩⟩

theorem remaining : Sound Parser.remaining fun all read rest => read = [] ∧ all = rest :=
  fun _ => ⟨[], (List.append_nil _).symm, fun _ => ⟨[], rfl, rfl, rfl⟩⟩

theorem next? : Sound Parser.next? fun token read rest => read = [] ∧ token = rest.head? :=
  fun _ => ⟨[], (List.append_nil _).symm, fun _ => ⟨[], rfl, rfl, rfl⟩⟩

theorem takeIf (q : Kind → Bool) :
    Sound (Parser.takeIf q) fun token read rest => match token with
      | some token => read = [token] ∧ q token.kind = true
      | none => read = [] ∧ ∀ token ∈ rest.head?, q token.kind = false := by
  intro s
  by_cases h : ∀ t ∈ s.rest.head?, q t.kind = false
  · rw [takeIf_none h]
    exact ⟨[], (List.append_nil _).symm, fun _ => ⟨[], rfl, rfl, h⟩⟩
  · cases hr : s.rest with
    | nil => simp [hr] at h
    | cons t rest =>
      have yes : q t.kind = true := by simpa [hr] using h
      rw [takeIf_some hr yes]
      exact ⟨[], (List.append_nil _).symm, fun _ => ⟨[t], rfl, rfl, yes⟩⟩

theorem takeWhile (q : Kind → Bool) :
    Sound (Parser.takeWhile q) fun tokens read _ =>
      read = tokens ∧ ∀ token ∈ tokens, q token.kind = true := by
  intro s
  refine ⟨[], (List.append_nil _).symm, fun _ =>
    ⟨s.rest.takeWhile fun token => q token.kind, List.takeWhile_append_dropWhile.symm, rfl, ?_⟩⟩
  exact fun token member => List.all_eq_true.mp List.all_takeWhile token member

theorem accepts (symbol : Symbol) :
    Sound (Parser.accepts symbol) fun found read rest =>
      (found = true ∧ ∃ token, read = [token] ∧ token.kind = .symbol symbol) ∨
      (found = false ∧ read = [] ∧ ∀ token ∈ rest.head?, token.kind ≠ .symbol symbol) := by
  refine (takeIf _).bind fun token us => pure fun rest holds => ?_
  cases token with
  | none => exact .inr ⟨rfl, by simpa using holds⟩
  | some token => exact .inl ⟨rfl, token, by simpa using holds⟩

theorem isAt (symbol : Symbol) :
    Sound (Parser.isAt symbol) fun _ read _ => read = [] := by
  exact next?.bind fun token us => pure fun rest holds => by simpa using holds.1

theorem expectIf (q : Kind → Bool) (cause : ParseError.Cause) :
    Sound (Parser.expectIf q cause) fun token read _ => read = [token] ∧ q token.kind = true := by
  refine (takeIf q).bind fun token us => ?_
  cases token with
  | none => exact fail cause
  | some token => exact pure fun rest holds => by simpa using holds

theorem expect (symbol : Symbol) (cause : ParseError.Cause) :
    Sound (Parser.expect symbol cause) fun token read _ =>
      read = [token] ∧ token.kind = .symbol symbol :=
  (expectIf _ cause).weaken fun token read rest holds => by simpa using holds

theorem expectName (cause : ParseError.Cause) :
    Sound (Parser.expectName cause) fun token read _ =>
      read = [token] ∧ token.kind = .identifier :=
  (expectIf _ cause).weaken fun token read rest holds => by simpa using holds

end Sound

/-- In front of `ts` and then `rest`, `p` reads exactly `ts`, succeeds without recording an error,
and `Q` holds of the result. -/
def Accepts (p : Parser α) (ts rest : List Token) (Q : α → Prop) : Prop :=
  ∀ s, s.rest = ts ++ rest →
    ∃ a s', p s = .ok a s' ∧ s'.rest = rest ∧ s'.errors = s.errors ∧ Q a

namespace Accepts

variable {p : Parser α} {q : Kind → Bool} {ts us rest : List Token} {Q R : α → Prop} {T : β → Prop}

theorem pure {a : α} (h : Q a) : Accepts (Pure.pure a) [] rest Q :=
  fun s hs => ⟨a, s, rfl, hs, rfl, h⟩

theorem bind {f : α → Parser β} (first : Accepts p ts (us ++ rest) Q)
    (second : ∀ a, Q a → Accepts (f a) us rest T) : Accepts (p >>= f) (ts ++ us) rest T := by
  intro s hs
  obtain ⟨a, s', hp, hrest, herrors, holds⟩ := first s (by rw [hs, List.append_assoc])
  obtain ⟨b, t, hf, hrest', herrors', holds'⟩ := second a holds s' hrest
  exact ⟨b, t, by rw [bind_ok hp, hf], hrest', herrors'.trans herrors, holds'⟩

theorem bindToken {f : α → Parser β} {t : Token} (first : Accepts p [t] (us ++ rest) Q)
    (second : ∀ a, Q a → Accepts (f a) us rest T) : Accepts (p >>= f) (t :: us) rest T :=
  show Accepts _ ([t] ++ us) rest T from bind first second

theorem bindNothing {f : α → Parser β} (first : Accepts p [] (ts ++ rest) Q)
    (second : ∀ a, Q a → Accepts (f a) ts rest T) : Accepts (p >>= f) ts rest T :=
  show Accepts _ ([] ++ ts) rest T from bind first second

theorem bindLast {f : α → Parser β} (first : Accepts p ts rest Q)
    (second : ∀ a, Q a → Accepts (f a) [] rest T) : Accepts (p >>= f) ts rest T := by
  have whole : Accepts (p >>= f) (ts ++ []) rest T := bind first second
  rwa [List.append_nil] at whole

theorem weaken (h : Accepts p ts rest Q) (implies : ∀ a, Q a → R a) : Accepts p ts rest R := by
  intro s hs
  obtain ⟨a, s', hp, hrest, herrors, holds⟩ := h s hs
  exact ⟨a, s', hp, hrest, herrors, implies a holds⟩

theorem map {f : α → β} (h : Accepts p ts rest Q) (implies : ∀ a, Q a → T (f a)) :
    Accepts (f <$> p) ts rest T := by
  exact bindLast h fun a holds => pure (implies a holds)

theorem freshId : Accepts Parser.freshId [] rest fun _ => True :=
  fun s hs => ⟨s.nextId, _, rfl, hs, rfl, trivial⟩

theorem remaining : Accepts Parser.remaining [] rest (· = rest) :=
  fun s hs => ⟨s.rest, s, rfl, hs, rfl, hs⟩

theorem next? : Accepts Parser.next? [] rest (· = rest.head?) :=
  fun s hs => ⟨s.rest.head?, s, rfl, hs, rfl, by rw [hs]; rfl⟩

theorem skip {t : Token} : Accepts Parser.skip [t] rest fun _ => True :=
  fun s hs => ⟨(), _, rfl, by simp [hs], rfl, trivial⟩

theorem takeIf {t : Token} (h : q t.kind = true) :
    Accepts (Parser.takeIf q) [t] rest (· = some t) :=
  fun _ hs => ⟨_, _, takeIf_some hs h, rfl, rfl, rfl⟩

theorem takeIf_none (h : ∀ t ∈ rest.head?, q t.kind = false) :
    Accepts (Parser.takeIf q) [] rest (· = none) :=
  fun s hs => ⟨none, s, Parser.takeIf_none (by simpa [hs] using h), hs, rfl, rfl⟩

theorem takeWhile (each : ∀ t ∈ ts, q t.kind = true) (ends : ∀ t ∈ rest.head?, q t.kind = false) :
    Accepts (Parser.takeWhile q) ts rest (· = ts) := by
  intro s hs
  have stops : rest.takeWhile (fun t => q t.kind) = [] ∧ rest.dropWhile (fun t => q t.kind) = rest := by
    cases rest with
    | nil => exact ⟨rfl, rfl⟩
    | cons t rest =>
      have no : q t.kind = false := ends t rfl
      simp [no]
  have before : s.rest.takeWhile (fun t => q t.kind) = ts := by
    rw [hs, List.takeWhile_append_of_pos (p := fun t : Token => q t.kind) each, stops.1, List.append_nil]
  have behind : s.rest.dropWhile (fun t => q t.kind) = rest := by
    rw [hs, List.dropWhile_append_of_pos (p := fun t : Token => q t.kind) each, stops.2]
  exact ⟨_, _, rfl, behind, rfl, before⟩

theorem expectIf {t : Token} (h : q t.kind = true) (cause : ParseError.Cause) :
    Accepts (Parser.expectIf q cause) [t] rest (· = t) :=
  bindLast (takeIf h) fun a same => by
    subst same
    exact pure rfl

theorem expect {t : Token} {symbol : Symbol} (h : t.kind = .symbol symbol)
    (cause : ParseError.Cause) : Accepts (Parser.expect symbol cause) [t] rest (· = t) :=
  expectIf (by simp [h]) cause

theorem expectName {t : Token} (h : t.kind = .identifier) (cause : ParseError.Cause) :
    Accepts (Parser.expectName cause) [t] rest (· = t) :=
  expectIf (by simp [h]) cause

theorem accepts {t : Token} {symbol : Symbol} (h : t.kind = .symbol symbol) :
    Accepts (Parser.accepts symbol) [t] rest (· = true) :=
  bindLast (takeIf (by simp [h])) fun a same => by
    subst same
    exact pure rfl

theorem accepts_not {symbol : Symbol} (h : ∀ t ∈ rest.head?, t.kind ≠ .symbol symbol) :
    Accepts (Parser.accepts symbol) [] rest (· = false) :=
  bindLast (takeIf_none (by simpa using h)) fun a same => by
    subst same
    exact pure rfl

theorem isAt {t : Token} {symbol : Symbol} (h : t.kind = .symbol symbol) :
    Accepts (Parser.isAt symbol) [] (t :: rest) (· = true) :=
  bindLast next? fun a same => pure (by simp [same, h])

theorem isAt_not {symbol : Symbol} (h : ∀ t ∈ rest.head?, t.kind ≠ .symbol symbol) :
    Accepts (Parser.isAt symbol) [] rest (· = false) :=
  bindLast next? fun a same => pure (by
    subst same
    cases rest <;> simp_all)

end Accepts

end Lox.Parser
