import Lox.Proofs.Parser.StatementSound
import Lox.Proofs.Resolution.Scopes

namespace Lox

def idsOf (occurrences : List (Nat × Token)) : List Nat := occurrences.map Prod.fst

def Expr.ids (e : Expr) : List Nat := idsOf e.occurrences

def Expr.allIds (es : List Expr) : List Nat := idsOf (allOccurrences es)

def Expr.optionIds (e : Option Expr) : List Nat := idsOf (optionOccurrences e)

def Stmt.ids (s : Stmt) : List Nat := idsOf s.occurrences

def Stmt.allIds (ss : List Stmt) : List Nat := idsOf (allOccurrences ss)

def Stmt.optionIds (s : Option Stmt) : List Nat := Stmt.allIds s.toList

namespace Parser

/-- Different ids from a range. -/
structure Fresh (lo hi : Nat) (ids : List Nat) : Prop where
  ordered : lo ≤ hi
  distinct : ∀ id, ids.count id ≤ 1
  range : ∀ id ∈ ids, lo ≤ id ∧ id < hi

namespace Fresh

variable {lo hi hi' : Nat} {ids ids' : List Nat}

theorem fewer (h : Fresh lo hi ids) (fewer : ∀ id, ids'.count id ≤ ids.count id) :
    Fresh lo hi ids' where
  ordered := h.ordered
  distinct id := Nat.le_trans (fewer id) (h.distinct id)
  range id member := by
    have positive := List.count_pos_iff.mpr member
    exact h.range id (List.count_pos_iff.mp (Nat.lt_of_lt_of_le positive (fewer id)))

theorem later (h : Fresh lo hi ids) (more : hi ≤ hi') : Fresh lo hi' ids where
  ordered := Nat.le_trans h.ordered more
  distinct := h.distinct
  range id member := ⟨(h.range id member).1, Nat.lt_of_lt_of_le (h.range id member).2 more⟩

theorem append (h : Fresh lo hi ids) (h' : Fresh hi hi' ids') : Fresh lo hi' (ids ++ ids') where
  ordered := Nat.le_trans h.ordered h'.ordered
  distinct id := by
    rw [List.count_append]
    by_cases old : id < hi
    · have absent : id ∉ ids' := fun member => Nat.not_le_of_lt old (h'.range id member).1
      rw [List.count_eq_zero_of_not_mem absent]
      exact h.distinct id
    · have absent : id ∉ ids := fun member => old (h.range id member).2
      rw [List.count_eq_zero_of_not_mem absent, Nat.zero_add]
      exact h'.distinct id
  range id member := by
    rcases List.mem_append.mp member with old | new
    · exact ⟨(h.range id old).1, Nat.lt_of_lt_of_le (h.range id old).2 h'.ordered⟩
    · exact ⟨Nat.le_trans h.ordered (h'.range id new).1, (h'.range id new).2⟩

theorem singleton (id : Nat) : Fresh id (id + 1) [id] where
  ordered := Nat.le_succ id
  distinct other := by
    rw [List.count_singleton]
    split <;> decide
  range other member := by
    obtain rfl := List.mem_singleton.mp member
    exact ⟨Nat.le_refl _, Nat.lt_succ_self _⟩

theorem next (h : Fresh lo hi ids) : Fresh lo (hi + 1) (ids ++ [hi]) := h.append (singleton hi)

end Fresh

variable {α β : Type}

/-- Started after the ids `taken` were given out, the rule leaves those of its result given out,
which are different from each other and new. -/
def Numbers (p : Parser α) (taken : List Nat) (ids : α → List Nat) : Prop :=
  ∀ lo s, Fresh lo s.nextId taken → match p s with
    | .ok a t => s.nextId ≤ t.nextId ∧ Fresh lo t.nextId (ids a)
    | .error _ t => s.nextId ≤ t.nextId

/-- The rule gives out the ids of its result and nothing else that stays. -/
def Adds (p : Parser α) (ids : α → List Nat) : Prop :=
  ∀ taken, Numbers p taken fun a => taken ++ ids a

namespace Numbers

variable {p : Parser α} {taken : List Nat} {ids ids' : α → List Nat} {more : β → List Nat}

theorem pure {a : α} (fewer : ∀ id, (ids a).count id ≤ taken.count id) :
    Numbers (Pure.pure a) taken ids :=
  fun _ _ start => ⟨Nat.le_refl _, start.fewer fewer⟩

theorem bind {f : α → Parser β} (first : Numbers p taken ids)
    (second : ∀ a, Numbers (f a) (ids a) more) : Numbers (p >>= f) taken more := by
  intro lo s start
  have run := first lo s start
  cases hp : p s with
  | error e t =>
    rw [hp] at run
    rw [bind_error hp]
    exact run
  | ok a t =>
    rw [hp] at run
    rw [bind_ok hp]
    obtain ⟨grows, fresh⟩ := run
    have further := second a lo t fresh
    cases hf : f a t with
    | error e u =>
      rw [hf] at further
      exact Nat.le_trans grows further
    | ok b u =>
      rw [hf] at further
      exact ⟨Nat.le_trans grows further.1, further.2⟩

theorem weaken (h : Numbers p taken ids)
    (fewer : ∀ a id, (ids' a).count id ≤ (ids a).count id) : Numbers p taken ids' := by
  intro lo s start
  have run := h lo s start
  cases hp : p s with
  | error e t =>
    rw [hp] at run
    exact run
  | ok a t =>
    rw [hp] at run
    exact ⟨run.1, run.2.fewer (fewer a)⟩

theorem map {f : α → β} (h : Numbers p taken ids)
    (fewer : ∀ a id, (more (f a)).count id ≤ (ids a).count id) : Numbers (f <$> p) taken more :=
  h.bind fun a => pure (fewer a)

theorem ite {c : Prop} [Decidable c] {q : Parser α} (yes : c → Numbers p taken ids)
    (no : ¬ c → Numbers q taken ids) : Numbers (if c then p else q) taken ids := by
  by_cases h : c
  · rw [if_pos h]
    exact yes h
  · rw [if_neg h]
    exact no h

theorem keeps (h : ∀ s, (∃ a t, p s = .ok a t ∧ t.nextId = s.nextId) ∨
    ∃ e t, p s = .error e t ∧ t.nextId = s.nextId) : Numbers p taken fun _ => taken := by
  intro lo s start
  rcases h s with ⟨a, t, hp, same⟩ | ⟨e, t, hp, same⟩
  · rw [hp]
    rw [← same] at start
    exact ⟨Nat.le_of_eq same.symm, start⟩
  · rw [hp]
    exact Nat.le_of_eq same.symm

theorem fail (cause : ParseError.Cause) : Numbers (Parser.fail cause) taken ids :=
  fun _ _ _ => Nat.le_refl _

theorem report (cause : ParseError.Cause) (token : Token) :
    Numbers (Parser.report cause token) taken fun _ => taken :=
  keeps fun _ => .inl ⟨_, _, rfl, rfl⟩

theorem reportHere (cause : ParseError.Cause) :
    Numbers (Parser.reportHere cause) taken fun _ => taken :=
  keeps fun _ => .inl ⟨_, _, rfl, rfl⟩

theorem freshId : Numbers Parser.freshId taken fun id => taken ++ [id] :=
  fun _ _ start => ⟨Nat.le_succ _, start.next⟩

theorem remaining : Numbers Parser.remaining taken fun _ => taken :=
  keeps fun _ => .inl ⟨_, _, rfl, rfl⟩

theorem next? : Numbers Parser.next? taken fun _ => taken :=
  keeps fun _ => .inl ⟨_, _, rfl, rfl⟩

theorem skip : Numbers Parser.skip taken fun _ => taken :=
  keeps fun _ => .inl ⟨_, _, rfl, rfl⟩

theorem takeIf (q : Kind → Bool) : Numbers (Parser.takeIf q) taken fun _ => taken := by
  refine keeps fun s => .inl ?_
  by_cases h : ∀ t ∈ s.rest.head?, q t.kind = false
  · exact ⟨_, _, takeIf_none h, rfl⟩
  · cases hr : s.rest with
    | nil => simp [hr] at h
    | cons t rest =>
      have yes : q t.kind = true := by simpa [hr] using h
      exact ⟨_, _, takeIf_some hr yes, rfl⟩

theorem takeWhile (q : Kind → Bool) : Numbers (Parser.takeWhile q) taken fun _ => taken :=
  keeps fun _ => .inl ⟨_, _, rfl, rfl⟩

theorem accepts (symbol : Symbol) : Numbers (Parser.accepts symbol) taken fun _ => taken :=
  (takeIf _).bind fun _ => pure fun _ => Nat.le_refl _

theorem isAt (symbol : Symbol) : Numbers (Parser.isAt symbol) taken fun _ => taken :=
  next?.bind fun _ => pure fun _ => Nat.le_refl _

theorem expectIf (q : Kind → Bool) (cause : ParseError.Cause) :
    Numbers (Parser.expectIf q cause) taken fun _ => taken := by
  refine (takeIf q).bind fun found => ?_
  cases found with
  | none => exact fail cause
  | some token => exact pure fun _ => Nat.le_refl _

theorem expect (symbol : Symbol) (cause : ParseError.Cause) :
    Numbers (Parser.expect symbol cause) taken fun _ => taken :=
  expectIf _ cause

theorem expectName (cause : ParseError.Cause) :
    Numbers (Parser.expectName cause) taken fun _ => taken :=
  expectIf _ cause

end Numbers

section Expressions

variable {nested : Parser Expr}

theorem adds_primary (inner : Adds nested Expr.ids) : Adds (primary nested) Expr.ids := by
  intro taken
  refine Numbers.next?.bind fun token => ?_
  cases token with
  | none => exact Numbers.fail _
  | some token =>
    have literal (value : Literal) :
        Numbers (do skip; pure (.literal value)) taken fun e => taken ++ Expr.ids e :=
      Numbers.skip.bind fun _ => Numbers.pure fun id => by simp [Expr.ids, idsOf, Expr.occurrences]
    dsimp only
    split
    case h_1 => exact literal _
    case h_2 => exact literal _
    case h_3 => exact literal _
    case h_4 => exact literal _
    case h_5 => exact literal _
    case h_6 =>
      refine Numbers.skip.bind fun _ => (Numbers.expect _ _).bind fun _ =>
        (Numbers.expectName _).bind fun _ => Numbers.freshId.bind fun _ => Numbers.pure fun id => ?_
      simp [Expr.ids, idsOf, Expr.occurrences]
    case h_7 =>
      refine Numbers.skip.bind fun _ => Numbers.freshId.bind fun _ => Numbers.pure fun id => ?_
      simp [Expr.ids, idsOf, Expr.occurrences]
    case h_8 =>
      refine Numbers.skip.bind fun _ => Numbers.freshId.bind fun _ => Numbers.pure fun id => ?_
      simp [Expr.ids, idsOf, Expr.occurrences]
    case h_9 =>
      refine Numbers.skip.bind fun _ => (inner taken).bind fun e => (Numbers.expect _ _).bind
        fun _ => Numbers.pure fun id => ?_
      simp [Expr.ids, idsOf, Expr.occurrences]
    case h_10 => exact Numbers.fail _

theorem adds_moreEntries {α : Type} {entry : Parser α} {ids : α → List Nat}
    (overflow : ParseError.Cause) (each : Adds entry ids) (fuel : List Token) (count : Nat) :
    Adds (moreEntries entry overflow fuel count) fun items => items.flatMap ids := by
  induction fuel generalizing count with
  | nil => exact fun taken => Numbers.pure fun id => by simp
  | cons _ fuel ih =>
    intro taken
    refine (Numbers.accepts .comma).bind fun found => Numbers.ite (fun _ => ?_) fun _ => ?_
    · dsimp only
      have behind : Numbers (do
          let first ← entry
          let others ← moreEntries entry overflow fuel (count + 1)
          pure (first :: others)) taken fun items => taken ++ items.flatMap ids := by
        refine (each taken).bind fun first => (ih (count + 1) _).bind fun others =>
          Numbers.pure fun id => ?_
        simp
      refine Numbers.ite (fun _ => ?_) fun _ => behind
      exact (Numbers.reportHere _).bind fun _ => behind
    · exact Numbers.pure fun id => by simp

theorem adds_entries {α : Type} {entry : Parser α} {ids : α → List Nat}
    (overflow : ParseError.Cause) (each : Adds entry ids) :
    Adds (entries entry overflow) fun items => items.flatMap ids := by
  intro taken
  refine (Numbers.isAt _).bind fun _ => Numbers.ite (fun _ => ?_) fun _ => ?_
  · exact Numbers.pure fun id => by simp
  · refine (each taken).bind fun first => Numbers.remaining.bind fun fuel =>
      (adds_moreEntries overflow each fuel 1 _).bind fun others => Numbers.pure fun id => ?_
    simp

theorem allIds_eq (es : List Expr) : Expr.allIds es = es.flatMap Expr.ids := by
  induction es with
  | nil => rfl
  | cons e rest ih =>
    simp only [Expr.allIds, idsOf, Expr.allOccurrences, List.map_append, List.flatMap_cons] at ih ⊢
    rw [ih]
    rfl

theorem numbers_calls (inner : Adds nested Expr.ids) (fuel : List Token) (callee : Expr)
    (taken : List Nat) :
    Numbers (calls nested fuel callee) (taken ++ callee.ids) fun e => taken ++ e.ids := by
  induction fuel generalizing callee with
  | nil => exact Numbers.pure fun _ => Nat.le_refl _
  | cons _ fuel ih =>
    refine (Numbers.takeIf _).bind fun found => ?_
    cases found with
    | none => exact Numbers.pure fun _ => Nat.le_refl _
    | some token =>
      refine Numbers.ite (fun _ => ?_) fun _ => ?_
      · exact (Numbers.expectName _).bind fun name => ih (.get callee name)
      · refine (adds_entries _ inner _).bind fun arguments => (Numbers.expect _ _).bind
          fun paren => ?_
        have same : taken ++ callee.ids ++ arguments.flatMap Expr.ids =
            taken ++ (Expr.call callee paren arguments).ids := by
          rw [← allIds_eq]
          simp [Expr.ids, Expr.allIds, idsOf, Expr.occurrences]
        rw [same]
        exact ih _

theorem adds_call (inner : Adds nested Expr.ids) : Adds (call nested) Expr.ids := fun taken =>
  (adds_primary inner taken).bind fun callee => Numbers.remaining.bind fun fuel =>
    numbers_calls inner fuel callee taken

theorem adds_unary (inner : Adds nested Expr.ids) : Adds (unary nested) Expr.ids := by
  intro taken
  refine (Numbers.takeWhile _).bind fun operators => (adds_call inner taken).bind fun operand =>
    Numbers.pure fun id => ?_
  have same : (operators.foldr Expr.unary operand).ids = operand.ids := by
    induction operators with
    | nil => rfl
    | cons operator rest ih => exact ih
  simp only [same, Nat.le_refl]

theorem numbers_chain {node : Expr → Token → Expr → Expr} {operators : List Symbol}
    {operand : Parser Expr} (each : Adds operand Expr.ids)
    (ids : ∀ left operator right, (node left operator right).ids = left.ids ++ right.ids)
    (fuel : List Token) (left : Expr) (taken : List Nat) :
    Numbers (chain node operators operand fuel left) (taken ++ left.ids)
      fun e => taken ++ e.ids := by
  induction fuel generalizing left with
  | nil => exact Numbers.pure fun _ => Nat.le_refl _
  | cons _ fuel ih =>
    refine (Numbers.takeIf _).bind fun found => ?_
    cases found with
    | none => exact Numbers.pure fun _ => Nat.le_refl _
    | some operator =>
      refine (each _).bind fun right => ?_
      rw [List.append_assoc, ← ids left operator right]
      exact ih _

theorem adds_leftAssociative {node : Expr → Token → Expr → Expr} {operators : List Symbol}
    {operand : Parser Expr} (each : Adds operand Expr.ids)
    (ids : ∀ left operator right, (node left operator right).ids = left.ids ++ right.ids) :
    Adds (leftAssociative node operators operand) Expr.ids := fun taken =>
  (each taken).bind fun first => Numbers.remaining.bind fun fuel =>
    numbers_chain each ids fuel first taken

theorem adds_disjunction (inner : Adds nested Expr.ids) : Adds (disjunction nested) Expr.ids := by
  have binary (left : Expr) (operator : Token) (right : Expr) :
      (Expr.binary left operator right).ids = left.ids ++ right.ids := List.map_append
  have logical (left : Expr) (operator : Token) (right : Expr) :
      (Expr.logical left operator right).ids = left.ids ++ right.ids := List.map_append
  have factors : Adds (factor nested) Expr.ids := adds_leftAssociative (adds_unary inner) binary
  have terms : Adds (term nested) Expr.ids := adds_leftAssociative factors binary
  have comparisons : Adds (comparison nested) Expr.ids := adds_leftAssociative terms binary
  have equalities : Adds (equality nested) Expr.ids := adds_leftAssociative comparisons binary
  have conjunctions : Adds (conjunction nested) Expr.ids := adds_leftAssociative equalities logical
  exact adds_leftAssociative conjunctions logical

theorem adds_assignment (inner : Adds nested Expr.ids) : Adds (assignment nested) Expr.ids := by
  intro taken
  refine (adds_disjunction inner taken).bind fun target => (Numbers.takeIf _).bind fun found => ?_
  cases found with
  | none => exact Numbers.pure fun _ => Nat.le_refl _
  | some equals =>
    refine (inner _).bind fun value => ?_
    unfold assignTo
    split
    · refine Numbers.freshId.bind fun _ => Numbers.pure fun id => ?_
      simp only [Expr.ids, idsOf, Expr.occurrences, List.map_append, List.map_cons, List.map_nil,
        List.count_append]
      omega
    · refine Numbers.pure fun id => ?_
      simp only [Expr.ids, idsOf, Expr.occurrences, List.map_append, List.count_append]
      omega
    · refine (Numbers.report _ _).bind fun _ => Numbers.pure fun id => ?_
      simp

theorem adds_expression : Adds expression Expr.ids := by
  have levels (fuel : List Token) : Adds (expressionAt fuel) Expr.ids := by
    induction fuel with
    | nil => exact fun _ => Numbers.fail _
    | cons _ fuel ih => exact adds_assignment ih
  exact fun taken => Numbers.remaining.bind fun fuel => levels fuel taken

end Expressions

end Parser

end Lox
