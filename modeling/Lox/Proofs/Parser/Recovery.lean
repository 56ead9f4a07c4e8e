import Lox.Proofs.Parser.StatementRuns

namespace Lox.Parser

open State

variable {ρ : Relabel} {s t : State} {n : Nat}

theorem resume_suffix (previous : Token) (ts : List Token) : resume previous ts <:+ ts := by
  induction ts generalizing previous with
  | nil => exact List.suffix_refl _
  | cons token rest ih =>
    unfold resume
    split
    · exact List.suffix_refl _
    · exact (ih token).trans (List.suffix_cons _ _)

theorem synchronize_suffix (s : State) : (synchronize s).rest <:+ s.rest := by
  unfold synchronize
  split
  next => exact List.suffix_refl _
  next token rest head => exact head ▸ (resume_suffix token rest).trans (List.suffix_cons _ _)

theorem synchronize_shorter (more : s.rest ≠ []) :
    (synchronize s).rest.length < s.rest.length := by
  unfold synchronize
  split
  next done => exact absurd done more
  next token rest head =>
    have shorter := (resume_suffix token rest).length_le
    simp only [head, List.length_cons]
    omega

theorem synchronize_last (s : State) : (synchronize s).last = s.last := by
  unfold synchronize
  split <;> rfl

theorem synchronize_relabel (s : State) :
    synchronize (s.relabel ρ) = (synchronize s).relabel ρ := by
  obtain ⟨rest, last, id, errors⟩ := s
  cases rest <;> rfl

structure Advances (s t : State) : Prop extends Follows s t where
  shorter : t.rest.length < s.rest.length

theorem advances_recovered {e : ParseError} (leads : Leads s t) (fine : e.IsFine)
    (more : s.rest ≠ []) : Advances s (synchronize (t.record e)) := by
  have suffix := synchronize_suffix (t.record e)
  have longer : (synchronize (t.record e)).rest.length ≤ t.rest.length := suffix.length_le
  obtain ⟨new, errors, fine'⟩ := leads.errors
  have errors' : (synchronize (t.record e)).errors = s.errors ++ (new ++ [e]) := by
    simp [synchronize_errors, State.record, errors]
  have count := congrArg List.length errors
  have count' := congrArg List.length errors'
  simp only [List.length_append, List.length_singleton] at count count'
  have weight := leads.weight
  simp only [State.weight] at weight
  -- Without a token read so far, recovery skips one.
  have paid : (synchronize (t.record e)).rest.length + 1 + t.errors.length ≤ s.weight ∧
      (synchronize (t.record e)).rest.length < s.rest.length := by
    by_cases same : t.weight = s.weight
    · have idle := leads.idle same
      have skipped : (synchronize (t.record e)).rest.length < t.rest.length :=
        synchronize_shorter (s := t.record e) (idle ▸ more)
      simp only [State.weight] at same ⊢
      rw [idle] at skipped same
      omega
    · have spends : Spends s t := ⟨leads.toFollows, Nat.lt_of_le_of_ne leads.weight same⟩
      have shorter := spends.shorter
      simp only [State.weight] at same ⊢
      omega
  refine ⟨⟨suffix.trans leads.rest, ?_, ⟨new ++ [e], errors', ?_⟩, ?_⟩, paid.2⟩
  · rw [synchronize_last]
    exact leads.last
  · exact List.forall_mem_append.mpr ⟨fine', List.forall_mem_singleton.mpr fine⟩
  · simp only [State.weight] at paid ⊢
    omega

/-- What reading a declaration does, next to the one it is compared with. -/
structure Declared (ρ : Relabel) (s : State) (result result' : Option Stmt × State) : Prop where
  same : result' = (result.1, result.2.relabel ρ)
  advances : Advances s result.2
  lawful : ∀ st ∈ result.1, st.Lawful none

theorem Declared.again {result result' : Option Stmt × State} (h : Declared .none s result result') :
    result' = result := by
  rw [h.same, relabel_none]

def Declares (ρ : Relabel) (n : Nat) (declaration declaration' : StateM State (Option Stmt)) : Prop :=
  ∀ s, s.IsSettled → s.rest ≠ [] → s.rest.length < n →
    Declared ρ s (declaration s) (declaration' (s.relabel ρ))

theorem declares_recover {rule rule' : Parser Stmt} (consumes : ConsumesDeclaration ρ n rule rule') :
    Declares ρ n (recover rule) (recover rule') := by
  intro s settled more short
  have ends := consumes s (settled.ready_of_rest more) short
  unfold RunsOn Runs at ends
  unfold recover
  generalize rule s = result at ends
  generalize rule' (s.relabel ρ) = result' at ends
  cases ends with
  | ok leads result =>
    obtain ⟨spends, lawful⟩ := result
    refine ⟨rfl, ⟨spends.toFollows, spends.shorter⟩, ?_⟩
    exact fun _ found => Option.some.inj found ▸ lawful
  | error leads fine =>
    refine ⟨?_, advances_recovered leads fine more, nofun⟩
    rw [← synchronize_relabel, relabel_record]

section Declarations

variable {declaration declaration' : StateM State (Option Stmt)}

theorem declarations_done {closes : Kind → Bool} {fuel : List Token} (done : s.rest = []) :
    declarations closes declaration fuel s = ([], s) :=
  declarations_stop (by simp [done])

structure ManyDeclared (ρ : Relabel) (s : State) (result result' : List Stmt × State) : Prop where
  same : result' = (result.1, result.2.relabel ρ)
  follows : Follows s result.2
  lawful : Stmt.AllLawful none result.1

theorem ManyDeclared.again {result result' : List Stmt × State}
    (h : ManyDeclared .none s result result') : result' = result := by
  rw [h.same, relabel_none]

theorem ManyDeclared.stop (s : State) : ManyDeclared ρ s ([], s) ([], s.relabel ρ) :=
  ⟨rfl, .refl s, trivial⟩

theorem declares_many (closes : Kind → Bool) {fuel fuel' : List Token}
    (each : Declares ρ n declaration declaration') (settled : s.IsSettled) (short : s.rest.length < n)
    (enough : s.rest.length ≤ fuel.length) (enough' : s.rest.length ≤ fuel'.length) :
    ManyDeclared ρ s (declarations closes declaration fuel s)
      (declarations closes declaration' fuel' (s.relabel ρ)) := by
  induction fuel generalizing fuel' s with
  | nil =>
    have done := List.length_eq_zero_iff.mp (Nat.le_zero.mp enough)
    rw [declarations_done done, declarations_done (show (s.relabel ρ).rest = [] from done)]
    exact .stop s
  | cons _ fuel ih =>
    cases head : s.rest with
    | nil =>
      rw [declarations_done head, declarations_done (show (s.relabel ρ).rest = [] from head)]
      exact .stop s
    | cons token rest =>
      cases closing : closes token.kind with
      | true =>
        have stops : ∀ token ∈ s.rest.head?, closes token.kind = true := by simp [head, closing]
        rw [declarations_stop stops, declarations_stop (s := s.relabel ρ) stops]
        exact .stop s
      | false =>
        obtain ⟨_, fuel', rfl⟩ := List.exists_cons_of_length_pos
          (show 0 < fuel'.length by simp only [head, List.length_cons] at enough'; omega)
        simp only [List.length_cons] at enough enough'
        obtain ⟨same, advances, lawful⟩ := each s settled (by simp [head]) short
        have shorter := advances.shorter
        obtain ⟨same', follows, lawful'⟩ := @ih _ fuel' (advances.settled settled) (by omega)
          (by omega) (by omega)
        rw [declarations_cons head closing,
          declarations_cons (s := s.relabel ρ) head closing, same, same']
        refine ⟨rfl, advances.toFollows.trans follows, ?_⟩
        rw [Stmt.allLawful_iff, List.forall_mem_append]
        exact ⟨fun st member => lawful st (Option.mem_toList.mp member),
          Stmt.allLawful_iff.mp lawful'⟩

theorem consumes_block (each : Declares ρ n declaration declaration') :
    ConsumesBody ρ n (block declaration) (block declaration') := by
  intro s t start spends ready short
  obtain ⟨same, follows, lawful⟩ := declares_many (· == .symbol .rightBrace) each ready.settled short
    (Nat.le_refl _) (Nat.le_refl _)
  unfold RunsOn Runs
  rw [block_eq, block_eq, show (t.relabel ρ).rest = t.rest from rfl, same]
  generalize declarations (· == .symbol .rightBrace) declaration t.rest t = result at follows lawful
  obtain ⟨statements, u⟩ := result
  have spends' : Spends s u :=
    ⟨spends.toFollows.trans follows, Nat.lt_of_le_of_lt follows.weight spends.less⟩
  exact (Runs.expect spends'.leads start .rightBrace (by nofun)).bind fun _ v leads took =>
    .pure leads ⟨spends'.further took.leads, lawful⟩

end Declarations

theorem statementAt_done {fuel : List Token} (done : s.rest = []) :
    statementAt fuel s = Parser.fail .expression s := by
  obtain ⟨rest, last, id, errors⟩ := s
  obtain rfl : rest = [] := done
  cases fuel <;> rfl

/-- With fuel for every token, the fuel does not matter. -/
theorem consumes_levels {fuel fuel' : List Token} (enough : n ≤ fuel.length + 1)
    (enough' : n ≤ fuel'.length + 1) :
    ConsumesBranch ρ n (statementAt fuel) (statementAt fuel') ∧
      Declares ρ n (declarationAt fuel) (declarationAt fuel') := by
  induction n generalizing fuel fuel' with
  | zero =>
    exact ⟨fun _ _ short => absurd short (Nat.not_lt_zero _),
      fun _ _ _ short => absurd short (Nat.not_lt_zero _)⟩
  | succ n ih =>
    by_cases more : 0 < n
    · obtain ⟨_, fuel, rfl⟩ := List.exists_cons_of_length_pos (show 0 < fuel.length by omega)
      obtain ⟨_, fuel', rfl⟩ := List.exists_cons_of_length_pos (show 0 < fuel'.length by omega)
      simp only [List.length_cons] at enough enough'
      obtain ⟨statements, declarations⟩ := @ih fuel fuel' (by omega) (by omega)
      have inside := consumes_block declarations
      have nested := consumes_statementRule statements inside
      exact ⟨nested, declares_recover (consumes_declarationRule nested inside)⟩
    · refine ⟨fun s ready short => ?_, fun s _ more short => ?_⟩
      · have done : s.rest = [] := List.length_eq_zero_iff.mp (by omega)
        exact runs_missing ready done (statementAt_done done) (statementAt_done done)
      · exact absurd (List.length_eq_zero_iff.mp (by omega)) more

theorem declares_declaration (n : Nat) : Declares ρ n declaration declaration := by
  intro s settled more _
  have enough : s.rest.length + 1 ≤ s.rest.length + 1 := Nat.le_refl _
  exact (consumes_levels enough enough).2 s settled more (Nat.lt_succ_self _)

section TokenLists

variable {ts : List Token}

theorem ofTokens_free (free : ∀ token ∈ ts, token.kind ≠ .endOfInput) (firstId : Nat) :
    State.ofTokens ts firstId = ⟨ts, ts.getLast?.getD ⟨.endOfInput, "", 1⟩, firstId, []⟩ := by
  have absent : ts.find? (fun token => token.kind == .endOfInput) = none := by simpa using free
  have all : (ts.takeWhile fun token => !(token.kind == .endOfInput)) = ts :=
    List.takeWhile_eq_self_iff.mpr (by simpa using free)
  simp only [State.ofTokens, absent, all]

theorem ofTokens_append {eof : Token} (free : ∀ token ∈ ts, token.kind ≠ .endOfInput)
    (isEnd : eof.kind = .endOfInput) (us : List Token) (firstId : Nat) :
    State.ofTokens (ts ++ eof :: us) firstId = ⟨ts, eof, firstId, []⟩ := by
  have absent : ts.find? (fun token => token.kind == .endOfInput) = none := by simpa using free
  have before : ((ts ++ eof :: us).takeWhile fun token => !(token.kind == .endOfInput)) = ts := by
    rw [List.takeWhile_append_of_pos (by simpa using free)]
    simp [isEnd]
  simp [State.ofTokens, before, absent, isEnd]

theorem free_or_cut (tokens : List Token) :
    (∀ token ∈ tokens, token.kind ≠ .endOfInput) ∨
      ∃ ts eof us, tokens = ts ++ eof :: us ∧ (∀ token ∈ ts, token.kind ≠ .endOfInput) ∧
        eof.kind = .endOfInput := by
  induction tokens with
  | nil => exact .inl nofun
  | cons token rest ih =>
    by_cases isEnd : token.kind = .endOfInput
    · exact .inr ⟨[], token, rest, rfl, nofun, isEnd⟩
    · rcases ih with free | ⟨ts, eof, us, rfl, free, isEnd'⟩
      · exact .inl (List.forall_mem_cons.mpr ⟨isEnd, free⟩)
      · exact .inr ⟨token :: ts, eof, us, rfl, List.forall_mem_cons.mpr ⟨isEnd, free⟩, isEnd'⟩

theorem ready_ofTokens (tokens : List Token) (firstId : Nat) :
    (State.ofTokens tokens firstId).IsReady := by
  rcases free_or_cut tokens with free | ⟨ts, eof, us, rfl, free, isEnd⟩
  · rw [ofTokens_free free]
    refine ⟨⟨free, fun _ final found => ?_⟩, fun done => ?_⟩
    · simp [show tokens.getLast? = some final from found]
    · obtain rfl : tokens = [] := done
      rfl
  · rw [ofTokens_append free isEnd]
    have other : eof.kind.isLiteral = false := by rw [isEnd]; rfl
    exact ⟨⟨free, fun literal => absurd (other.symm.trans literal) Bool.false_ne_true⟩, fun _ => other⟩

end TokenLists

theorem parse_declares (start : s.IsSettled) :
    ManyDeclared ρ s (declarations (fun _ => false) declaration s.rest s)
      (declarations (fun _ => false) declaration s.rest (s.relabel ρ)) :=
  declares_many _ (declares_declaration _) start (Nat.lt_succ_self _) (Nat.le_refl _) (Nat.le_refl _)

theorem runs_wholeExpression (ready : s.IsReady) :
    RunsOn ρ s s wholeExpression wholeExpression (Expr.Lawful none) := by
  refine (consumes_expression _ s ready (Nat.lt_succ_self _)).bind
    fun e t leads ⟨spends, lawful⟩ => ?_
  refine (Runs.next? leads).bind fun found u leads ⟨_, same⟩ => ?_
  subst same
  exact .ite (fun _ => .fail leads ready.settled (by nofun)) fun _ => .pure leads ⟨spends, lawful⟩

end Lox.Parser
