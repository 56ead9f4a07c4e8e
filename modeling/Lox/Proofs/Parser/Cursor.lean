import Lox.Proofs.Parser.Program

namespace Lox.Parser

/-- A place in a list of tokens, by its number. -/
structure Position where
  tokens : List Token
  current : Nat

namespace Position

/-- The next token, or the last one of the list if there is none. -/
def peek (p : Position) : Token :=
  p.tokens[min p.current (p.tokens.length - 1)]?.getD ⟨.endOfInput, "", 1⟩

def isAtEnd (p : Position) : Bool :=
  decide (p.tokens.length ≤ p.current) || p.peek.kind == .endOfInput

def check (p : Position) (q : Kind → Bool) : Bool := !p.isAtEnd && q p.peek.kind

def advance (p : Position) : Position :=
  if p.isAtEnd then p else { p with current := p.current + 1 }

def previous (p : Position) : Token :=
  p.tokens[p.current - 1]?.getD ⟨.endOfInput, "", 1⟩

theorem current_lt {p : Position} (goesOn : p.isAtEnd = false) : p.current < p.tokens.length := by
  simp only [isAtEnd, Bool.or_eq_false_iff, decide_eq_false_iff_not, Nat.not_le] at goesOn
  exact goesOn.1

theorem advance_eq {p : Position} (goesOn : p.isAtEnd = false) :
    p.advance = { p with current := p.current + 1 } := by
  rw [advance, goesOn]
  rfl

theorem previous_advance {p : Position} (goesOn : p.isAtEnd = false) :
    p.advance.previous = p.peek := by
  have inside := current_lt goesOn
  simp only [advance_eq goesOn, previous, peek, Nat.add_sub_cancel,
    Nat.min_eq_left (Nat.le_sub_one_of_lt inside)]

def seek (p : Position) : Position :=
  if p.isAtEnd then p
  else if p.previous.kind == .symbol .semicolon || startsStatement p.peek.kind then p
  else p.advance.seek
termination_by p.tokens.length - p.current
decreasing_by
  rename_i goesOn _
  have goesOn : p.isAtEnd = false := by simpa using goesOn
  have inside := current_lt goesOn
  rw [advance_eq goesOn]
  exact Nat.sub_succ_lt_self _ _ inside

def synchronize (p : Position) : Position := p.advance.seek

/-- The state stands at the place, and keeps nothing behind the end of the input. -/
structure Marks (p : Position) (s : State) : Prop where
  split : ∃ read ahead, p = ⟨read ++ ahead, read.length⟩ ∧ s.rest = beforeEnd ahead ∧
    ∀ token ∈ read, token.kind ≠ .endOfInput
  last : s.last = (State.ofTokens p.tokens 0).last

theorem marks_start (tokens : List Token) (firstId : Nat) :
    Marks ⟨tokens, 0⟩ (State.ofTokens tokens firstId) :=
  ⟨⟨[], tokens, rfl, rfl, by simp⟩, rfl⟩

theorem peek_append (read : List Token) (token : Token) (ahead : List Token) :
    peek ⟨read ++ token :: ahead, read.length⟩ = token := by
  have inside : min read.length ((read ++ token :: ahead).length - 1) = read.length := by
    simp only [List.length_append, List.length_cons]
    omega
  simp only [peek, inside]
  simp

theorem peek_length (read : List Token) :
    peek ⟨read, read.length⟩ = read.getLast?.getD ⟨.endOfInput, "", 1⟩ := by
  simp only [peek, Nat.min_eq_right (Nat.sub_le _ _), List.getLast?_eq_getElem?]

namespace Marks

variable {p : Position} {s : State}

theorem cases (h : Marks p s) :
    (p.isAtEnd = true ∧ s.rest = [] ∧ p.peek = s.last) ∨
      ∃ others, p.isAtEnd = false ∧ s.rest = p.peek :: others ∧
        Marks { p with current := p.current + 1 } { s with rest := others } := by
  obtain ⟨⟨read, ahead, rfl, rest, free⟩, last⟩ := h
  cases ahead with
  | nil =>
    rw [List.append_nil] at last ⊢
    refine .inl ⟨by simp [isAtEnd], rest, ?_⟩
    rw [last, ofTokens_free free, peek_length]
  | cons token ahead =>
    have here := peek_append read token ahead
    by_cases isEnd : token.kind = .endOfInput
    · refine .inl ⟨by simp [isAtEnd, here, isEnd], by simpa [beforeEnd, isEnd] using rest, ?_⟩
      rw [here, last, ofTokens_append free isEnd]
    · refine .inr ⟨beforeEnd ahead, by simp [isAtEnd, here, isEnd], ?_,
        ⟨read ++ [token], ahead, by simp, rfl, ?_⟩, last⟩
      · rw [here]
        simpa [beforeEnd, isEnd] using rest
      · simpa [or_imp, forall_and, isEnd] using free

theorem peek_eq (h : Marks p s) : p.peek = s.blamed := by
  rcases h.cases with ⟨-, rest, here⟩ | ⟨others, -, rest, -⟩
  · simpa [State.blamed, rest] using here
  · simp [State.blamed, rest]

theorem isAtEnd_iff (h : Marks p s) : p.isAtEnd = true ↔ s.rest = [] := by
  rcases h.cases with ⟨ends, rest, -⟩ | ⟨others, goesOn, rest, -⟩
  · simp [ends, rest]
  · simp [goesOn, rest]

theorem advance (h : Marks p s) : Marks p.advance { s with rest := s.rest.tail } := by
  rcases h.cases with ⟨ends, rest, -⟩ | ⟨others, goesOn, rest, next⟩
  · rw [Position.advance, if_pos ends, rest]
    have same : s = { s with rest := [] } := by rw [← rest]
    exact same ▸ h
  · rw [Position.advance_eq goesOn, rest]
    exact next

theorem seek (h : Marks p s) {previous : Token} (before : p.previous = previous) :
    Marks p.seek { s with rest := resume previous s.rest } := by
  subst before
  induction rest : s.rest generalizing p s with
  | nil =>
    rw [Position.seek, if_pos (h.isAtEnd_iff.mpr rest), resume, ← rest]
    exact h
  | cons token others ih =>
    have goesOn : p.isAtEnd = false := by
      simpa [rest] using mt h.isAtEnd_iff.mp
    have here : p.peek = token := by rw [h.peek_eq, State.blamed, rest, List.headD_cons]
    rw [Position.seek, if_neg (by simp [goesOn]), resume, here]
    split
    · rw [← rest]
      exact h
    · have next := ih h.advance (by rw [rest, List.tail_cons])
      rwa [previous_advance goesOn, here] at next

theorem synchronize (h : Marks p s) : Marks p.synchronize (Parser.synchronize s) := by
  rcases h.cases with ⟨ends, rest, -⟩ | ⟨others, goesOn, rest, next⟩
  · rw [Position.synchronize, Position.advance, if_pos ends, Position.seek, if_pos ends,
      Parser.synchronize, rest]
    exact h
  · rw [← Position.advance_eq goesOn] at next
    rw [Position.synchronize, Parser.synchronize, rest]
    exact next.seek (previous_advance goesOn)

theorem skip_eq (h : Marks p s) : ∃ t, skip s = .ok () t ∧ Marks p.advance t :=
  ⟨_, rfl, h.advance⟩

theorem fail_eq {α : Type} (h : Marks p s) (cause : ParseError.Cause) :
    (fail cause : Parser α) s = .error ⟨cause, p.peek⟩ s := by
  rw [fail, h.peek_eq]

theorem takeIf_eq (h : Marks p s) (q : Kind → Bool) :
    if p.check q then ∃ t, takeIf q s = .ok (some p.peek) t ∧ Marks p.advance t
    else takeIf q s = .ok none s := by
  rcases h.cases with ⟨ends, rest, -⟩ | ⟨others, goesOn, rest, next⟩
  · simp [check, ends, takeIf, rest]
  · rw [check, Position.advance_eq goesOn, goesOn]
    by_cases wanted : q p.peek.kind <;> simp [takeIf, rest, wanted, next]

end Marks

end Position

def peek : Parser Token := fun s => .ok s.blamed s

/-- The rule with its tests one after the other. Numbers and strings are told by the token that an
error would be blamed on, which may be the last one, read long before. -/
def primaryInTurn (nested : Parser Expr) : Parser Expr := do
  if ← accepts .falseWord then pure (.literal (.bool false))
  else if ← accepts .trueWord then pure (.literal (.bool true))
  else if ← accepts .nilWord then pure (.literal .nil)
  else
    match (← peek).kind with
    | .number value => do skip; pure (.literal (.number value))
    | .string contents => do skip; pure (.literal (.string contents))
    | _ => do
      match ← accept .superWord with
      | some keyword => do
        let _ ← expect .dot .superDot
        let method ← expectName .superMethodName
        pure (.super (← freshId) keyword method)
      | none =>
        match ← accept .thisWord with
        | some keyword => do pure (.this (← freshId) keyword)
        | none =>
          match ← takeIf (· == .identifier) with
          | some name => do pure (.var (← freshId) name)
          | none =>
            if ← accepts .leftParen then
              let inner ← nested
              let _ ← expect .rightParen .groupClosing
              pure (.grouping inner)
            else fail .expression

theorem primaryInTurn_eq (nested : Parser Expr) {s : State} (ready : s.IsReady) :
    primaryInTurn nested s = primary nested s := by
  obtain ⟨rest, last, nextId, errors⟩ := s
  cases rest with
  | nil =>
    obtain ⟨kind, lexeme, line⟩ := last
    have operand : kind.isLiteral = false := ready.ready rfl
    cases kind with
    | number value => cases operand
    | string contents => cases operand
    | _ => rfl
  | cons token rest =>
    obtain ⟨kind, lexeme, line⟩ := token
    cases kind with
    | symbol symbol => cases symbol <;> rfl
    | _ => rfl

end Lox.Parser
