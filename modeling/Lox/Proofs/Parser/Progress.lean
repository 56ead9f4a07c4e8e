import Lox.Proofs.Parser.Program

namespace Lox

namespace Parser

variable {s t : State} {tokens fuel : List Token}

/-- A place in a token list, in front of its end. -/
structure State.IsAt (s : State) (tokens : List Token) : Prop where
  rest : s.rest <:+ beforeEnd tokens
  last : s.last = (State.ofTokens tokens 0).last

theorem State.isAt_ofTokens (tokens : List Token) (firstId : Nat) :
    (State.ofTokens tokens firstId).IsAt tokens :=
  ⟨List.suffix_refl _, rfl⟩

theorem State.IsAt.settled (h : s.IsAt tokens) : s.IsSettled where
  free token member := (ready_ofTokens tokens 0).settled.free token (h.rest.subset member)
  closed literal final found := by
    rw [h.last] at literal ⊢
    refine (ready_ofTokens tokens 0).settled.closed literal final ?_
    obtain ⟨read, split⟩ := h.rest
    have rest : (State.ofTokens tokens 0).rest = read ++ s.rest := split.symm
    rw [rest]
    exact List.mem_getLast?_append_of_mem_getLast? found

theorem State.IsAt.follows (h : s.IsAt tokens) (follows : State.Follows s t) : t.IsAt tokens :=
  ⟨follows.rest.trans h.rest, follows.last.trans h.last⟩

def statement : Parser Stmt := fun s => statementAt s.rest s

section Rules

variable {ρ : Relabel} {n : Nat}

theorem consumes_statement (enough : n ≤ fuel.length + 1) :
    ConsumesBranch ρ n (statementAt fuel) statement := by
  intro s ready short
  have enough' : s.rest.length + 1 ≤ s.rest.length + 1 := Nat.le_refl _
  exact (consumes_levels (Nat.le_trans short enough) enough').1 s ready (Nat.lt_succ_self _)

theorem declares_fuel (enough : n ≤ fuel.length + 1) :
    Declares ρ n (declarationAt fuel) declaration := by
  intro s settled more short
  have enough' : s.rest.length + 1 ≤ s.rest.length + 1 := Nat.le_refl _
  exact (consumes_levels (Nat.le_trans short enough) enough').2 s settled more (Nat.lt_succ_self _)

theorem consumes_fuel (enough : n ≤ fuel.length + 1) :
    ConsumesExpression ρ n (expressionAt fuel) expression := by
  intro s ready short
  have enough' : s.rest.length + 1 ≤ s.rest.length + 1 := Nat.le_refl _
  exact consumes_expressionAt (Nat.le_trans short enough) enough' s ready (Nat.lt_succ_self _)

end Rules

theorem expression_eq (settled : s.IsSettled) (more : s.rest ≠ []) :
    expression s = assignment expression s := by
  obtain ⟨token, rest, head⟩ := List.exists_cons_of_ne_nil more
  have fuelled : expression s = assignment (expressionAt rest) s := by
    show expressionAt s.rest s = _
    rw [head]
    rfl
  have same := consumes_assignment (ρ := .none) (consumes_fuel (Nat.le_refl (rest.length + 1)))
    s (settled.ready_of_rest more) (by simp [head])
  rw [fuelled]
  exact same.again.symm

theorem statement_eq (settled : s.IsSettled) (more : s.rest ≠ []) :
    statement s = statementRule statement (block declaration) s := by
  obtain ⟨token, rest, head⟩ := List.exists_cons_of_ne_nil more
  have fuelled : statement s =
      statementRule (statementAt rest) (block (declarationAt rest)) s := by
    show statementAt s.rest s = _
    rw [head]
    rfl
  have enough := Nat.le_refl (rest.length + 1)
  have same := consumes_statementRule (ρ := .none) (consumes_statement enough)
    (consumes_block (declares_fuel enough)) s (settled.ready_of_rest more) (by simp [head])
  rw [fuelled]
  exact same.again.symm

theorem declaration_eq (settled : s.IsSettled) (more : s.rest ≠ []) :
    declaration s = recover (declarationRule statement (block declaration)) s := by
  obtain ⟨token, rest, head⟩ := List.exists_cons_of_ne_nil more
  have fuelled : declaration s = recover (declarationRule (statementAt (token :: rest))
      (block (declarationAt rest))) s := by
    show declarationAt s.rest s = _
    rw [head]
    rfl
  have enough := Nat.le_refl (rest.length + 1)
  have nested : ConsumesBranch .none (rest.length + 1 + 1) (statementAt (token :: rest)) statement :=
    consumes_statement (Nat.le_refl _)
  have same := declares_recover (consumes_declarationRule nested
    (consumes_block (declares_fuel enough))) s settled more (by simp [head])
  rw [State.relabel_none] at same
  rw [fuelled]
  exact same.again.symm

theorem declarations_eq {closes : Kind → Bool} (settled : s.IsSettled) {token : Token}
    {rest : List Token} (head : s.rest = token :: rest) (goesOn : closes token.kind = false) :
    declarations closes declaration s.rest s =
      let (first, t) := declaration s
      let (others, u) := declarations closes declaration t.rest t
      (first.toList ++ others, u) := by
  have more : s.rest ≠ [] := by simp [head]
  have advances := (declares_declaration (ρ := .none) (s.rest.length + 1) s settled more
    (Nat.lt_succ_self _)).advances
  have shorter := advances.shorter
  have enough : (declaration s).2.rest.length ≤ rest.length := by
    simp only [head, List.length_cons] at shorter
    omega
  have same := declares_many (ρ := .none) closes (declares_declaration _)
    (advances.settled settled) (Nat.lt_succ_self _) (Nat.le_refl _) enough
  rw [State.relabel_none] at same
  rw [head, declarations_cons head goesOn, same.again]
  rfl

theorem declarations_stops (closes : Kind → Bool) (settled : s.IsSettled)
    (enough : s.rest.length ≤ fuel.length) :
    ∀ token ∈ (declarations closes declaration fuel s).2.rest.head?, closes token.kind = true := by
  induction fuel generalizing s with
  | nil =>
    have done := List.length_eq_zero_iff.mp (Nat.le_zero.mp enough)
    rw [declarations_done done, done]
    nofun
  | cons _ fuel ih =>
    by_cases stops : ∀ token ∈ s.rest.head?, closes token.kind = true
    · rw [declarations_stop stops]
      exact stops
    · cases head : s.rest with
      | nil => simp [head] at stops
      | cons token rest =>
        have more : s.rest ≠ [] := by simp [head]
        have advances := (declares_declaration (ρ := .none) (s.rest.length + 1) s settled more
          (Nat.lt_succ_self _)).advances
        have shorter := advances.shorter
        simp only [List.length_cons] at enough
        rw [declarations_cons head (by simpa [head] using stops)]
        exact ih (advances.settled settled) (by omega)

theorem parse_reads_all (tokens : List Token) (firstId : Nat) :
    (declarations (fun _ => false) declaration (beforeEnd tokens)
      (.ofTokens tokens firstId)).2.rest = [] := by
  have stops := declarations_stops (fun _ => false) (ready_ofTokens tokens firstId).settled
    (Nat.le_refl _)
  refine List.head?_eq_none_iff.mp (Option.eq_none_iff_forall_not_mem.mpr fun token found => ?_)
  exact Bool.false_ne_true (stops token found)

end Parser

open Lox.Parser

/-- For every error there is a token in front of the end. -/
theorem parse_errors_le (tokens : List Token) (firstId : Nat) :
    (parse tokens firstId).errors.length ≤ (beforeEnd tokens).length := by
  have follows := (parse_declares (ρ := .none) (ready_ofTokens tokens firstId).settled).follows
  have weight := follows.weight
  have start : (State.ofTokens tokens firstId).weight = (beforeEnd tokens).length := Nat.add_zero _
  have final : (parse tokens firstId).errors.length ≤ (declarations (fun _ => false) declaration
      (beforeEnd tokens) (.ofTokens tokens firstId)).2.weight := Nat.le_add_left _ _
  exact Nat.le_trans final (Nat.le_trans weight (Nat.le_of_eq start))

/-- From all places that parsing can come to, a declaration reads a token and stays in front of the
end, whatever fuel above the number of tokens it is given. So the rules call each other as they would
without any fuel, parsing comes to the end of all token lists, and it finds no more errors than there
are tokens. -/
theorem parsing_progresses (tokens : List Token) (firstId : Nat) :
    (State.ofTokens tokens firstId).IsAt tokens ∧
    (∀ s : State, s.IsAt tokens → s.rest ≠ [] →
      (∀ fuel : List Token, s.rest.length ≤ fuel.length →
        declarationAt fuel s = declaration s) ∧
      (declaration s).2.IsAt tokens ∧ (declaration s).2.rest.length < s.rest.length ∧
      declaration s = recover (declarationRule statement (block declaration)) s ∧
      statement s = statementRule statement (block declaration) s ∧
      expression s = assignment expression s) ∧
    (∀ (s : State) (closes : Kind → Bool) (token : Token) (rest : List Token), s.IsAt tokens →
      s.rest = token :: rest → closes token.kind = false →
      declarations closes declaration s.rest s =
        let (first, t) := declaration s
        let (others, u) := declarations closes declaration t.rest t
        (first.toList ++ others, u)) ∧
    (declarations (fun _ => false) declaration (beforeEnd tokens)
      (.ofTokens tokens firstId)).2.rest = [] ∧
    (parse tokens firstId).errors.length ≤ (beforeEnd tokens).length := by
  refine ⟨State.isAt_ofTokens tokens firstId, fun s place more => ?_,
    fun s closes token rest place head goesOn => ?_, parse_reads_all tokens firstId,
    parse_errors_le tokens firstId⟩
  · have settled := place.settled
    have declared := declares_declaration (ρ := .none) (s.rest.length + 1) s settled more
      (Nat.lt_succ_self _)
    refine ⟨fun fuel enough => ?_, place.follows declared.advances.toFollows,
      declared.advances.shorter, declaration_eq settled more, statement_eq settled more,
      expression_eq settled more⟩
    have same := declares_fuel (ρ := .none) (Nat.succ_le_succ enough) s settled more
      (Nat.lt_succ_self _)
    rw [State.relabel_none] at same
    exact same.again.symm
  · exact declarations_eq place.settled head goesOn

end Lox
