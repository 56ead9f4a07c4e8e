import Lox.Parser.Expression
import Lox.Proofs.Parser.Reading
import Mathlib.Data.List.Infix
import Mathlib.Data.List.TakeWhile

namespace Lox

/-- The kinds of token that are a whole operand by themselves. -/
def Kind.isLiteral : Kind → Bool
  | .number _ | .string _ => true
  | _ => false

/-- A missing expression is not blamed on a number or a string, which would be one. -/
def ParseError.IsFine (e : ParseError) : Prop :=
  e.cause = .expression → e.token.kind.isLiteral = false

/-- Tokens to blame instead of the end of the input. -/
structure Relabel where
  blame : Token → Token
  keeps : ∀ token, token.kind ≠ .endOfInput → blame token = token

def Relabel.none : Relabel := ⟨id, fun _ _ => rfl⟩

def ParseError.relabel (ρ : Relabel) (e : ParseError) : ParseError :=
  { e with token := ρ.blame e.token }

theorem ParseError.relabel_none : ParseError.relabel .none = id := rfl

namespace Parser

namespace State

variable {s t u : State} {ρ : Relabel}

def relabel (ρ : Relabel) (s : State) : State :=
  { s with last := ρ.blame s.last, errors := s.errors.map (ParseError.relabel ρ) }

theorem relabel_none (s : State) : s.relabel .none = s := by
  simp only [relabel, ParseError.relabel_none, List.map_id]
  rfl

theorem relabel_record (e : ParseError) :
    (s.record e).relabel ρ = (s.relabel ρ).record (e.relabel ρ) := by
  simp [relabel, record]

/-- What is left to read and what has been complained about. An error costs a token. -/
def weight (s : State) : Nat := s.rest.length + s.errors.length

/-- Nothing is left to read behind the end, and the token to blame is the last one of the list unless
it marks the end. -/
structure IsSettled (s : State) : Prop where
  free : ∀ token ∈ s.rest, token.kind ≠ .endOfInput
  closed : s.last.kind.isLiteral = true → ∀ final ∈ s.rest.getLast?, final = s.last

/-- An operand may come next: at the end, the token to blame is none. -/
structure IsReady (s : State) : Prop where
  settled : s.IsSettled
  ready : s.rest = [] → s.last.kind.isLiteral = false

/-- Reading from `s` to `t`. New errors are fine, and each has its token. -/
structure Follows (s t : State) : Prop where
  rest : t.rest <:+ s.rest
  last : t.last = s.last
  errors : ∃ new, t.errors = s.errors ++ new ∧ ∀ e ∈ new, e.IsFine
  weight : t.weight ≤ s.weight

/-- In addition there is a token to spare. -/
structure Spends (s t : State) : Prop extends Follows s t where
  less : t.weight < s.weight

/-- There is a token to spare, or nothing has been read. -/
structure Leads (s t : State) : Prop extends Follows s t where
  idle : t.weight = s.weight → t.rest = s.rest

/-- In addition, what was read last is no operand by itself. -/
structure Took (s t : State) : Prop extends Spends s t where
  ready : t.IsReady

theorem errors_kept (s : State) : ∃ new, s.errors = s.errors ++ new ∧ ∀ e ∈ new, e.IsFine :=
  ⟨[], (List.append_nil _).symm, List.forall_mem_nil _⟩

namespace Follows

theorem refl (s : State) : Follows s s :=
  ⟨List.suffix_refl _, rfl, errors_kept _, Nat.le_refl _⟩

theorem trans (first : Follows s t) (second : Follows t u) : Follows s u := by
  refine ⟨second.rest.trans first.rest, second.last.trans first.last, ?_,
    Nat.le_trans second.weight first.weight⟩
  obtain ⟨new, errors, fine⟩ := first.errors
  obtain ⟨more, errors', fine'⟩ := second.errors
  refine ⟨new ++ more, by rw [errors', errors, List.append_assoc], ?_⟩
  exact List.forall_mem_append.mpr ⟨fine, fine'⟩

theorem errors_le (h : Follows s t) : s.errors.length ≤ t.errors.length := by
  obtain ⟨new, errors, -⟩ := h.errors
  simp [errors]

theorem settled (h : Follows s t) (start : s.IsSettled) : t.IsSettled where
  free token member := start.free token (h.rest.subset member)
  closed literal final found := by
    rw [h.last] at literal ⊢
    refine start.closed literal final ?_
    obtain ⟨read, split⟩ := h.rest
    rw [← split]
    exact List.mem_getLast?_append_of_mem_getLast? found

end Follows

namespace Spends

theorem leads (h : Spends s t) : Leads s t :=
  ⟨h.toFollows, fun same => absurd same (Nat.ne_of_lt h.less)⟩

theorem shorter (h : Spends s t) : t.rest.length < s.rest.length := by
  have errors := h.errors_le
  have less := h.less
  simp only [weight] at less
  omega

end Spends

namespace Leads

theorem refl (s : State) : Leads s s := ⟨.refl s, fun _ => rfl⟩

theorem trans (first : Leads s t) (second : Leads t u) : Leads s u := by
  refine ⟨first.toFollows.trans second.toFollows, fun same => ?_⟩
  have before := first.weight
  have behind := second.weight
  rw [second.idle (by omega), first.idle (by omega)]

theorem spends (first : Leads s t) (second : Spends t u) : Spends s u :=
  ⟨first.toFollows.trans second.toFollows, Nat.lt_of_lt_of_le second.less first.weight⟩

end Leads

theorem Spends.further (first : Spends s t) (second : Leads t u) : Spends s u :=
  ⟨first.toFollows.trans second.toFollows, Nat.lt_of_le_of_lt second.weight first.less⟩

theorem IsSettled.ready_of_rest (h : s.IsSettled) (more : s.rest ≠ []) : s.IsReady :=
  ⟨h, fun done => absurd done more⟩

theorem IsReady.fine (h : s.IsReady) (done : s.rest = []) :
    ParseError.IsFine ⟨.expression, s.blamed⟩ := by
  intro _
  simpa [blamed, done] using h.ready done

theorem blamed_cons {token : Token} {rest : List Token} (head : s.rest = token :: rest) :
    s.blamed = token := by
  simp [blamed, head]

theorem blamed_relabel (h : s.IsSettled) : (s.relabel ρ).blamed = ρ.blame s.blamed := by
  unfold blamed relabel
  cases rest : s.rest with
  | nil => rfl
  | cons token others =>
    exact (ρ.keeps token (h.free token (by simp [rest]))).symm

theorem spends_tail {token : Token} {rest : List Token} (head : s.rest = token :: rest) :
    Spends s { s with rest := rest } where
  rest := ⟨[token], head.symm⟩
  last := rfl
  errors := errors_kept _
  weight := by simp [weight, head]
  less := by simp [weight, head]

theorem ready_tail {token : Token} {rest : List Token} (settled : s.IsSettled)
    (head : s.rest = token :: rest) (other : token.kind.isLiteral = false) :
    IsReady { s with rest := rest } where
  settled := (spends_tail head).settled settled
  ready done := by
    obtain rfl : rest = [] := done
    refine Bool.eq_false_iff.mpr fun literal => ?_
    have same := settled.closed literal token (by simp [head])
    rw [same, literal] at other
    cases other

end State

open State

theorem notLiteral (symbol : Symbol) (kind : Kind) (h : (kind == .symbol symbol) = true) :
    kind.isLiteral = false := by
  rw [eq_of_beq h]
  rfl

theorem isOneOf_notLiteral {symbols : List Symbol} (kind : Kind) (h : isOneOf symbols kind = true) :
    kind.isLiteral = false := by
  cases kind <;> simp_all [isOneOf, Kind.isLiteral]

/-- How a rule started in a state ends, next to the one it is compared with. -/
inductive Finishes {α : Type} (ρ : Relabel) (s : State) (R : α → State → Prop) :
    EStateM.Result ParseError State α → EStateM.Result ParseError State α → Prop where
  | ok {a : α} {t : State} (leads : Leads s t) (result : R a t) :
    Finishes ρ s R (.ok a t) (.ok a (t.relabel ρ))
  | error {e : ParseError} {t : State} (leads : Leads s t) (fine : e.IsFine) :
    Finishes ρ s R (.error e t) (.error (e.relabel ρ) (t.relabel ρ))

/-- From `t`, which was reached from `s`, the two rules do the same, and `R` holds of the result. -/
def Runs {α : Type} (ρ : Relabel) (s t : State) (p p' : Parser α) (R : α → State → Prop) : Prop :=
  Finishes ρ s R (p t) (p' (t.relabel ρ))

variable {ρ : Relabel} {α β : Type} {s s₀ t : State}

namespace Runs

variable {p p' : Parser α} {R : α → State → Prop} {T : β → State → Prop}

theorem pure {a : α} (leads : Leads s t) (result : R a t) :
    Runs ρ s t (Pure.pure a) (Pure.pure a) R :=
  .ok leads result

theorem bind {f f' : α → Parser β} (first : Runs ρ s t p p' R)
    (second : ∀ a u, Leads s u → R a u → Runs ρ s u (f a) (f' a) T) :
    Runs ρ s t (p >>= f) (p' >>= f') T := by
  unfold Runs at first
  simp only [Runs, Bind.bind, EStateM.bind]
  generalize p t = result at first
  generalize p' (t.relabel ρ) = result' at first
  cases first with
  | ok leads result => exact second _ _ leads result
  | error leads fine => exact .error leads fine

theorem weaken {R' : α → State → Prop} (h : Runs ρ s t p p' R)
    (implies : ∀ a u, Leads s u → R a u → R' a u) : Runs ρ s t p p' R' := by
  unfold Runs at h ⊢
  generalize p t = result at h
  generalize p' (t.relabel ρ) = result' at h
  cases h with
  | ok leads result => exact .ok leads (implies _ _ leads result)
  | error leads fine => exact .error leads fine

theorem map {f : α → β} (h : Runs ρ s t p p' R)
    (implies : ∀ a u, Leads s u → R a u → T (f a) u) : Runs ρ s t (f <$> p) (f <$> p') T :=
  h.bind fun a u leads result => pure leads (implies a u leads result)

/-- Without other tokens to blame, the rules do exactly the same. -/
theorem again (h : Runs .none s t p p' R) : p' t = p t := by
  unfold Runs at h
  rw [relabel_none] at h
  generalize p t = result at h
  generalize p' t = result' at h
  cases h with
  | ok => rw [relabel_none]
  | error => rw [relabel_none, ParseError.relabel_none, id]

theorem since (leads : Leads s t) (h : Runs ρ t t p p' R) : Runs ρ s t p p' R := by
  unfold Runs at h ⊢
  generalize p t = result at h
  generalize p' (t.relabel ρ) = result' at h
  cases h with
  | ok further result => exact .ok (leads.trans further) result
  | error further fine => exact .error (leads.trans further) fine

theorem ite {c : Prop} [Decidable c] {q q' : Parser α} (yes : c → Runs ρ s t p p' R)
    (no : ¬ c → Runs ρ s t q q' R) :
    Runs ρ s t (if c then p else q) (if c then p' else q') R := by
  by_cases h : c
  · rw [if_pos h, if_pos h]
    exact yes h
  · rw [if_neg h, if_neg h]
    exact no h

theorem record {e : ParseError} (spends : Spends s t) (spare : t.weight + 1 < s.weight)
    (fine : e.IsFine) : Leads s (t.record e) := by
  obtain ⟨new, errors, fine'⟩ := spends.errors
  have weight : (t.record e).weight = t.weight + 1 := by
    simp [State.weight, State.record]
    omega
  refine ⟨⟨spends.rest, spends.last, ⟨new ++ [e], ?_, ?_⟩, by omega⟩, by omega⟩
  · simp [State.record, errors]
  · exact List.forall_mem_append.mpr ⟨fine', List.forall_mem_singleton.mpr fine⟩

theorem report {cause : ParseError.Cause} {token : Token} (spends : Spends s t)
    (spare : t.weight + 1 < s.weight) (other : cause ≠ .expression)
    (kept : token.kind ≠ .endOfInput) :
    Runs ρ s t (Parser.report cause token) (Parser.report cause token)
      fun _ u => u = t.record ⟨cause, token⟩ := by
  have same : (t.record ⟨cause, token⟩).relabel ρ = (t.relabel ρ).record ⟨cause, token⟩ := by
    rw [relabel_record, ParseError.relabel, ρ.keeps token kept]
  unfold Runs Parser.report
  rw [← same]
  exact .ok (record spends spare fun missing => absurd missing other) rfl

theorem stop {a : α} (leads : Leads s t) (h : p t = .ok a t)
    (h' : p' (t.relabel ρ) = .ok a (t.relabel ρ)) (result : R a t) : Runs ρ s t p p' R := by
  unfold Runs
  rw [h, h']
  exact .ok leads result

section Steps

variable (leads : Leads s t)
include leads

theorem remaining : Runs ρ s t Parser.remaining Parser.remaining fun fuel u =>
    fuel = t.rest ∧ u = t :=
  .ok leads ⟨rfl, rfl⟩

theorem next? : Runs ρ s t Parser.next? Parser.next? fun found u => found = t.rest.head? ∧ u = t :=
  .ok leads ⟨rfl, rfl⟩

theorem isAt (symbol : Symbol) :
    Runs ρ s t (Parser.isAt symbol) (Parser.isAt symbol) fun _ u => u = t :=
  (next? leads).bind fun _ _ leads ⟨_, same⟩ => pure leads same

theorem freshId : Runs ρ s t Parser.freshId Parser.freshId fun _ u => Leads t u := by
  have fresh : Leads t { t with nextId := t.nextId + 1 } :=
    ⟨⟨List.suffix_refl _, rfl, errors_kept _, Nat.le_refl _⟩, fun _ => rfl⟩
  exact .ok (leads.trans fresh) fresh

theorem skip {token : Token} {rest : List Token} (head : t.rest = token :: rest) :
    Runs ρ s t Parser.skip Parser.skip fun _ u => u = { t with rest := rest } := by
  have same : { t with rest := t.rest.tail } = { t with rest := rest } := by
    rw [head, List.tail_cons]
  exact .ok (leads.trans (same ▸ (spends_tail head).leads)) same

variable (start : s.IsSettled)
include start

theorem fail {cause : ParseError.Cause} (fine : ParseError.IsFine ⟨cause, t.blamed⟩) :
    Runs ρ s t (Parser.fail cause : Parser α) (Parser.fail cause) R := by
  unfold Runs Parser.fail
  rw [blamed_relabel (leads.settled start)]
  exact .error leads fine

omit leads in
theorem reportHere {cause : ParseError.Cause} (spends : Spends s t)
    (spare : t.weight + 1 < s.weight) (other : cause ≠ .expression) :
    Runs ρ s t (Parser.reportHere cause) (Parser.reportHere cause)
      fun _ u => u = t.record ⟨cause, t.blamed⟩ := by
  have fine : ParseError.IsFine ⟨cause, t.blamed⟩ := fun missing => absurd missing other
  have same : (t.record ⟨cause, t.blamed⟩).relabel ρ =
      (t.relabel ρ).record ⟨cause, ρ.blame t.blamed⟩ := relabel_record _
  unfold Runs Parser.reportHere
  rw [blamed_relabel (spends.settled start), ← same]
  exact .ok (record spends spare fine) rfl

omit leads start in
def Taken (q : Kind → Bool) (t : State) : Option Token → State → Prop
  | some token, u => q token.kind = true ∧ token ∈ t.rest ∧ Took t u
  | none, u => u = t

theorem takeIf {q : Kind → Bool} (others : ∀ kind, q kind = true → kind.isLiteral = false) :
    Runs ρ s t (Parser.takeIf q) (Parser.takeIf q) (Taken q t) := by
  by_cases h : ∀ token ∈ t.rest.head?, q token.kind = false
  · have double := takeIf_none (s := t.relabel ρ) h
    unfold Runs
    rw [takeIf_none h, double]
    exact .ok leads rfl
  · cases head : t.rest with
    | nil => simp [head] at h
    | cons token rest =>
      have found : q token.kind = true := by simpa [head] using h
      have double := takeIf_some (s := t.relabel ρ) head found
      unfold Runs
      rw [takeIf_some head found, double]
      have spends := spends_tail head
      have member : token ∈ t.rest := by simp [head]
      exact .ok (leads.trans spends.leads)
        ⟨found, member, spends, ready_tail (leads.settled start) head (others _ found)⟩

theorem accepts (symbol : Symbol) :
    Runs ρ s t (Parser.accepts symbol) (Parser.accepts symbol) fun found u =>
      (found = true → Took t u) ∧ (¬ found = true → u = t) := by
  refine (takeIf leads start (notLiteral symbol)).bind fun found u leads taken => pure leads ?_
  cases found with
  | none => exact ⟨nofun, fun _ => taken⟩
  | some token => exact ⟨fun _ => taken.2.2, fun none => absurd rfl none⟩

theorem expectIf {q : Kind → Bool} {cause : ParseError.Cause}
    (others : ∀ kind, q kind = true → kind.isLiteral = false) (other : cause ≠ .expression) :
    Runs ρ s t (Parser.expectIf q cause) (Parser.expectIf q cause) fun token u =>
      q token.kind = true ∧ Took t u := by
  refine (takeIf leads start others).bind fun found u leads taken => ?_
  cases found with
  | none => exact fail leads start fun missing => absurd missing other
  | some token => exact pure leads ⟨taken.1, taken.2.2⟩

theorem expect (symbol : Symbol) {cause : ParseError.Cause} (other : cause ≠ .expression) :
    Runs ρ s t (Parser.expect symbol cause) (Parser.expect symbol cause) fun _ u => Took t u :=
  (expectIf leads start (notLiteral symbol) other).weaken fun _ _ _ => And.right

theorem expectName {cause : ParseError.Cause} (other : cause ≠ .expression) :
    Runs ρ s t (Parser.expectName cause) (Parser.expectName cause) fun name u =>
      name.kind = .identifier ∧ Took t u := by
  refine (expectIf leads start ?_ other).weaken
    fun _ _ _ ⟨isName, took⟩ => ⟨by simpa using isName, took⟩
  rintro kind isName
  rw [eq_of_beq isName]
  rfl

end Steps

theorem takeWhile {q : Kind → Bool} (ready : s.IsReady)
    (others : ∀ kind, q kind = true → kind.isLiteral = false) :
    Runs ρ s s (Parser.takeWhile q) (Parser.takeWhile q) fun operators t =>
      (∀ operator ∈ operators, q operator.kind = true) ∧ t.IsReady := by
  let isOperator (token : Token) : Bool := q token.kind
  let t : State := { s with rest := s.rest.dropWhile isOperator }
  have rest : t.rest <:+ s.rest := List.dropWhile_suffix _
  have leads : Leads s t := by
    refine ⟨⟨rest, rfl, errors_kept _, ?_⟩, fun same => ?_⟩
    · exact Nat.add_le_add_right rest.length_le _
    · exact rest.eq_of_length (Nat.add_right_cancel same)
  have operators : ∀ operator ∈ s.rest.takeWhile isOperator, q operator.kind = true :=
    fun _ member => List.mem_takeWhile_imp (p := isOperator) member
  refine .ok leads ⟨operators, leads.settled ready.settled, fun done => ?_⟩
  -- If only operators were left, the last of them is the token to blame.
  refine Bool.eq_false_iff.mpr fun literal => ?_
  cases final : s.rest.getLast? with
  | none =>
    have none := ready.ready (List.getLast?_eq_none_iff.mp final)
    exact Bool.false_ne_true (none.symm.trans literal)
  | some token =>
    have same := ready.settled.closed literal token final
    have taken := List.dropWhile_eq_nil_iff.mp done token (List.mem_of_getLast? final)
    have other := others _ taken
    rw [same] at other
    exact Bool.false_ne_true (other.symm.trans literal)

end Runs

def RunsOn (ρ : Relabel) (s t : State) (p p' : Parser α) (P : α → Prop) : Prop :=
  Runs ρ s t p p' fun a u => Spends s u ∧ P a

theorem runs_missing {p p' : Parser α} {P : α → Prop} (ready : s.IsReady) (done : s.rest = [])
    (h : p s = Parser.fail .expression s)
    (h' : p' (s.relabel ρ) = Parser.fail .expression (s.relabel ρ)) : RunsOn ρ s s p p' P := by
  have missing : RunsOn ρ s s (Parser.fail .expression) (Parser.fail .expression) P :=
    .fail (.refl s) ready.settled (ready.fine done)
  unfold RunsOn Runs at missing ⊢
  rwa [h, h']

/-- A rule that may read nothing. -/
def Passes (ρ : Relabel) (s : State) (p p' : Parser α) (P : α → Prop) : Prop :=
  Runs ρ s s p p' fun a t => Leads s t ∧ P a

/-- A rule that reads a token, from all places with less than `n` tokens left where an operand may
come. -/
def Consumes (ρ : Relabel) (n : Nat) (p p' : Parser α) (P : α → Prop) : Prop :=
  ∀ s, s.IsReady → s.rest.length < n → RunsOn ρ s s p p' P

theorem consumes_expectName {n : Nat} {cause : ParseError.Cause} (other : cause ≠ .expression) :
    Consumes ρ n (expectName cause) (expectName cause) fun name => name.kind = .identifier :=
  fun s ready _ => (Runs.expectName (.refl s) ready.settled other).weaken
    fun _ _ _ ⟨isName, took⟩ => ⟨took.toSpends, isName⟩

section Entries

variable {entry entry' : Parser α} {P : α → Prop} {n : Nat}

theorem moreEntries_done {overflow : ParseError.Cause} {fuel : List Token} {count : Nat}
    (done : t.rest = []) : moreEntries entry overflow fuel count t = .ok [] t := by
  cases fuel with
  | nil => rfl
  | cons _ _ =>
    simp [moreEntries, accepts, accept, takeIf, done, bind, EStateM.bind, pure, EStateM.pure]

theorem runs_moreEntries {overflow : ParseError.Cause} {fuel fuel' : List Token} (count : Nat)
    (each : Consumes ρ n entry entry' P) (other : overflow ≠ .expression) (start : s.IsSettled)
    (spends : Spends s t) (short : t.rest.length ≤ n) (enough : t.rest.length ≤ fuel.length)
    (enough' : t.rest.length ≤ fuel'.length) :
    RunsOn ρ s t (moreEntries entry overflow fuel count) (moreEntries entry' overflow fuel' count)
      fun items => ∀ item ∈ items, P item := by
  induction fuel generalizing fuel' t count with
  | nil =>
    have done := List.length_eq_zero_iff.mp (Nat.le_zero.mp enough)
    exact .stop spends.leads rfl (moreEntries_done done) ⟨spends, nofun⟩
  | cons _ fuel ih =>
    cases fuel' with
    | nil =>
      have done := List.length_eq_zero_iff.mp (Nat.le_zero.mp enough')
      exact .stop spends.leads (moreEntries_done done) rfl ⟨spends, nofun⟩
    | cons _ fuel' =>
      refine (Runs.accepts spends.leads start .comma).bind fun found u leads ⟨yes, no⟩ => ?_
      refine .ite (fun isFound => ?_) fun notFound => ?_
      · have took := yes isFound
        -- The comma pays for the complaint, and the first entry has paid for the comma.
        have behind (v : State) (spends' : Spends s v) (ready : v.IsReady)
            (short' : v.rest.length < t.rest.length) :
            RunsOn ρ s v
              (do
                let first ← entry
                let others ← moreEntries entry overflow fuel (count + 1)
                pure (first :: others))
              (do
                let first ← entry'
                let others ← moreEntries entry' overflow fuel' (count + 1)
                pure (first :: others))
              fun items => ∀ item ∈ items, P item := by
          refine ((each v ready (by omega)).since spends'.leads).bind
            fun first w _ ⟨spends'', holds⟩ => ?_
          have shorter := spends''.shorter
          simp only [List.length_cons] at enough enough'
          refine (ih (count + 1) (spends'.further spends''.leads) (by omega) (by omega)
            (by omega)).bind fun others x leads ⟨spends, all⟩ => ?_
          exact .pure leads ⟨spends, List.forall_mem_cons.mpr ⟨holds, all⟩⟩
        have spends' := spends.further took.leads
        have shorter := took.shorter
        dsimp only
        refine .ite (fun _ => ?_) fun _ => behind u spends' took.ready shorter
        have less := spends.less
        have less' := took.less
        refine (Runs.reportHere start spends' (by omega) other).bind fun _ v leads same => ?_
        subst same
        refine behind _ ⟨leads.toFollows, ?_⟩ ?_ shorter
        · simp only [State.weight, State.record, List.length_append, List.length_singleton]
            at less less' ⊢
          omega
        · exact ⟨leads.settled start, took.ready.ready⟩
      · obtain rfl := no notFound
        exact .pure leads ⟨spends, nofun⟩

theorem runs_entries {overflow : ParseError.Cause} (each : Consumes ρ n entry entry' P)
    (other : overflow ≠ .expression) (ready : s.IsReady) (short : s.rest.length < n) :
    Passes ρ s (entries entry overflow) (entries entry' overflow)
      fun items => ∀ item ∈ items, P item := by
  refine (Runs.isAt (.refl s) .rightParen).bind fun _ t leads same => ?_
  subst same
  refine .ite (fun _ => .pure leads ⟨leads, nofun⟩) fun _ => ?_
  refine (each t ready short).bind fun first u leads ⟨spends, holds⟩ => ?_
  refine (Runs.remaining leads).bind fun fuel v leads ⟨all, same⟩ => ?_
  subst all same
  have shorter := spends.shorter
  refine (runs_moreEntries 1 each other ready.settled spends (by omega) (Nat.le_refl _)
    (Nat.le_refl _)).bind fun others w leads ⟨_, all⟩ => ?_
  exact .pure leads ⟨leads, List.forall_mem_cons.mpr ⟨holds, all⟩⟩

end Entries

end Parser

end Lox
