import Mathlib
import Lox.Proofs.Grammar.Derivable
import Lox.Proofs.Grammar.Readable
import Lox.Proofs.Parser.Recovery
import Lox.Proofs.Parser.StatementComplete
import Lox.Token.Scan

namespace Lox

open Grammar

namespace Grammar

def Phrase.endFree : Phrase → Bool
  | .empty => true
  | .terminal expected => expected != .endOfInput
  | .rule name => name != .program
  | .seq p q | .either p q => p.endFree && q.endFree
  | .optional p | .many p | .upTo _ p => p.endFree

theorem Derives.endFree {p : Phrase} {ts : List Token} (h : Derives p ts) (free : p.endFree = true) :
    ∀ t ∈ ts, t.kind ≠ .endOfInput := by
  induction h with
  | empty | absent | stop | stopEarly => nofun
  | terminal token =>
    refine List.forall_mem_singleton.mpr fun isEnd => ?_
    simp [isEnd, Terminal.ofKind, Phrase.endFree] at free
  | @rule name _ _ ih =>
    refine ih ?_
    cases name with
    | program => cases free
    | _ => rfl
  | seq _ _ ih ih' =>
    obtain ⟨first, second⟩ := Bool.and_eq_true_iff.mp free
    exact List.forall_mem_append.mpr ⟨ih first, ih' second⟩
  | left _ ih => exact ih (Bool.and_eq_true_iff.mp free).1
  | right _ ih => exact ih (Bool.and_eq_true_iff.mp free).2
  | present _ ih => exact ih free
  | again _ _ ih ih' | againUpTo _ _ ih ih' =>
    exact List.forall_mem_append.mpr ⟨ih free, ih' free⟩

end Grammar

def beforeEnd (tokens : List Token) : List Token :=
  tokens.takeWhile fun token => !(token.kind == .endOfInput)

theorem beforeEnd_append_of_free {ts : List Token} (free : ∀ t ∈ ts, t.kind ≠ .endOfInput)
    (us : List Token) : beforeEnd (ts ++ us) = ts ++ beforeEnd us :=
  List.takeWhile_append_of_pos (by simpa using free)

theorem beforeEnd_append {ts : List Token} {eof : Token} (free : ∀ t ∈ ts, t.kind ≠ .endOfInput)
    (isEnd : eof.kind = .endOfInput) : beforeEnd (ts ++ [eof]) = ts := by
  rw [beforeEnd_append_of_free free]
  simp [beforeEnd, isEnd]

theorem Spells.beforeEnd {form : Form} {ts : List Token} {eof : Token} (h : Spells form ts)
    (isEnd : eof.kind = .endOfInput) : beforeEnd (ts ++ [eof]) = ts := by
  refine beforeEnd_append ((derives_of_spells h).endFree ?_) isEnd
  cases form <;> rfl

section Program

variable {tokens : List Token} {firstId : Nat}

/-- A program without errors is read to the end, and its tokens are a way to write it. -/
theorem spells_of_parse (h : (parse tokens firstId).errors = []) :
    Spells (.declarations (parse tokens firstId).statements) (beforeEnd tokens) := by
  let start := Parser.State.ofTokens tokens firstId
  obtain ⟨new, errors, holds⟩ := Parser.sound_declarations (fun _ => false)
    Parser.sound_declaration start.rest start
  have none : new = [] := errors.symm.trans h
  obtain ⟨read, rest, spells, ends⟩ := holds none
  have finished := List.head?_eq_none_iff.mp
    (Option.eq_none_iff_forall_not_mem.mpr fun t found =>
      Bool.false_ne_true (ends (Nat.le_refl _) t found))
  rw [finished, List.append_nil] at rest
  rw [show beforeEnd tokens = read from rest]
  exact spells

theorem declarations_behind {ss : List Stmt} {ts us spare : List Token} {s : Parser.State}
    (spells : Spells (.declarations ss) ts) (start : s.rest = ts ++ us) (noElse : NoElse us)
    (settled : s.IsSettled) (enough : s.rest.length ≤ spare.length) :
    ∃ ss' t, SameStatements ss ss' ∧ t.rest = us ∧ t.last = s.last ∧ t.errors = s.errors ∧
      Parser.declarations (fun _ => false) Parser.declaration spare s =
        (ss' ++ (Parser.declarations (fun _ => false) Parser.declaration us t).1,
          (Parser.declarations (fun _ => false) Parser.declaration us t).2) := by
  induction ss generalizing ts s spare with
  | nil =>
    cases spells
    obtain rfl : s.rest = us := start
    have same := Parser.declares_many (ρ := .none) (fun _ => false) (Parser.declares_declaration _)
      settled (Nat.lt_succ_self _) (Nat.le_refl _) enough
    rw [Parser.State.relabel_none] at same
    exact ⟨[], s, rfl, rfl, rfl, rfl, same.again⟩
  | cons statement ss ih =>
    cases spells with
    | @more _ _ ts vs first others =>
      rw [List.append_assoc] at start
      have free := Parser.noElse_of_follows others noElse
      obtain ⟨statement', t, run, rest, errors, same⟩ :=
        Parser.declarationAt_ok first (Parser.readBack_of_spells first)
          (show ts.length ≤ s.rest.length by simp [start]) free start
      obtain ⟨token, ws, rfl, -⟩ := first.declaration_starts
      have run' : Parser.declaration s = (some statement', t) := run
      have advances := (Parser.declares_declaration (ρ := .none) (s.rest.length + 1) s settled
        (by simp [start]) (Nat.lt_succ_self _)).advances
      rw [run'] at advances
      have shorter : t.rest.length < s.rest.length := advances.shorter
      obtain ⟨_, spare, rfl⟩ := List.exists_cons_of_length_pos (show 0 < spare.length by omega)
      simp only [List.length_cons] at enough
      obtain ⟨ss', u, same', rest', last, errors', run''⟩ :=
        ih others rest (advances.settled settled) (show t.rest.length ≤ spare.length by omega)
      refine ⟨statement' :: ss', u, ?_, rest', last.trans advances.last, errors'.trans errors, ?_⟩
      · simp only [SameStatements, Stmt.eraseAllIds, Stmt.Same] at same same' ⊢
        rw [same, same']
      · rw [Parser.declarations_cons start rfl, run', run'']
        rfl

theorem parse_of_spells {ss : List Stmt} (h : Spells (.declarations ss) (beforeEnd tokens)) :
    (parse tokens firstId).errors = [] ∧ SameStatements ss (parse tokens firstId).statements := by
  let start := Parser.State.ofTokens tokens firstId
  have all : start.rest = beforeEnd tokens ++ [] := (List.append_nil _).symm
  obtain ⟨ss', t, same, -, -, errors, run⟩ := declarations_behind h all nofun
    (Parser.ready_ofTokens tokens firstId).settled (Nat.le_refl _)
  have result : parse tokens firstId = ⟨ss', t.errors, t.nextId⟩ := by
    simp only [parse]
    rw [run]
    simp [Parser.declarations]
  rw [result]
  exact ⟨errors, same⟩

/-- A program is parsed without errors if and only if the grammar derives it. -/
theorem parse_errors_iff {ts : List Token} {eof : Token} (free : ∀ t ∈ ts, t.kind ≠ .endOfInput)
    (isEnd : eof.kind = .endOfInput) :
    (parse (ts ++ [eof]) firstId).errors = [] ↔ Derives (.rule .program) (ts ++ [eof]) := by
  have before := beforeEnd_append free isEnd
  constructor
  · intro clean
    have spells := spells_of_parse clean
    rw [before] at spells
    have last : Derives (.terminal .endOfInput) [eof] := by
      have derives := Derives.terminal eof
      rwa [isEnd] at derives
    exact .rule (.seq (derives_of_spells spells) last)
  · intro derives
    obtain ⟨ss, us, end', same, -, spells⟩ := meaning_of_derives derives
    obtain ⟨rfl, -⟩ := List.append_inj' same rfl
    rw [← before] at spells
    exact (parse_of_spells spells).1

end Program

section Expression

variable {tokens : List Token} {firstId : Nat}

theorem sound_wholeExpression :
    Parser.Sound Parser.wholeExpression fun e read rest =>
      SpellsExpr .assignment e read ∧ rest = [] := by
  refine Parser.sound_expression.bind fun e us => Parser.Sound.next?.bind fun found vs =>
    Parser.Sound.ite (fun _ => Parser.Sound.fail _) fun isNone => Parser.Sound.pure ?_
  rintro rest ⟨rfl, rfl⟩ spells
  exact ⟨by simpa [Parser.ReadsExpr] using spells, by simpa using isNone⟩

theorem spells_of_parseExpression {e : Expr} (h : (parseExpression tokens firstId).result = .ok e) :
    SpellsExpr .assignment e (beforeEnd tokens) := by
  have start := sound_wholeExpression (.ofTokens tokens firstId)
  unfold parseExpression at h
  cases run : Parser.wholeExpression (.ofTokens tokens firstId) with
  | error error s => simp [run] at h
  | ok e' s =>
    simp only [run] at h start
    obtain ⟨new, errors, holds⟩ := start
    split at h
    next clean =>
      cases h
      have none : new = [] := errors.symm.trans (List.isEmpty_iff.mp clean)
      obtain ⟨read, rest, spells, finished⟩ := holds none
      rw [finished, List.append_nil] at rest
      rw [show beforeEnd tokens = read from rest]
      exact spells
    next => cases h

theorem parseExpression_of_spelled {e : Expr} (wellFormed : e.WellFormed)
    (spelled : Spelled e.marks (beforeEnd tokens)) :
    ∃ e', (parseExpression tokens firstId).result = .ok e' ∧ e.Same e' := by
  have accepts : Parser.Accepts Parser.wholeExpression (beforeEnd tokens) [] e.Same := by
    refine Parser.Accepts.bindLast (Parser.accepts_expression wellFormed spelled .nil) fun e' same => ?_
    refine Parser.Accepts.bindLast Parser.Accepts.next? ?_
    rintro _ rfl
    exact Parser.Accepts.pure same
  obtain ⟨e', s, run, -, errors, same⟩ :=
    accepts (.ofTokens tokens firstId) (List.append_nil _).symm
  refine ⟨e', ?_, same⟩
  have clean : s.errors = [] := errors
  simp [parseExpression, run, clean]

/-- An expression is parsed without errors if and only if the grammar derives it. -/
theorem parseExpression_ok_iff :
    (∃ e, (parseExpression tokens firstId).result = .ok e) ↔
      Derives (.rule .expression) (beforeEnd tokens) := by
  constructor
  · rintro ⟨e, result⟩
    have spells := spells_of_parseExpression result
    exact derives_expression spells.wellFormed spells.spelled
  · intro derives
    obtain ⟨e, spells⟩ : ∃ e, SpellsExpr .assignment e (beforeEnd tokens) :=
      meaning_of_derives derives
    exact (parseExpression_of_spelled spells.wellFormed spells.spelled).imp fun _ => And.left

end Expression

/-- The parser accepts exactly the grammar: a program has no errors if and only if it is derived, and
so it is for a single expression. -/
theorem parser_accepts_iff_derives (ts : List Token) (eof : Token) (firstId : Nat)
    (free : ∀ t ∈ ts, t.kind ≠ .endOfInput) (isEnd : eof.kind = .endOfInput) :
    ((parse (ts ++ [eof]) firstId).errors = [] ↔ Derives (.rule .program) (ts ++ [eof])) ∧
      ((∃ e, (parseExpression (ts ++ [eof]) firstId).result = .ok e) ↔
        Derives (.rule .expression) ts) := by
  refine ⟨parse_errors_iff free isEnd, ?_⟩
  have iff : (∃ e, (parseExpression (ts ++ [eof]) firstId).result = .ok e) ↔
      Derives (.rule .expression) (beforeEnd (ts ++ [eof])) := parseExpression_ok_iff
  rwa [beforeEnd_append free isEnd] at iff

def endToken : Token := ⟨.endOfInput, "", 1⟩

def classAndLoopText : String :=
  "class A < B \x7b init(x) \x7b this.x = x; \x7d \x7d " ++
    "for (var i = nil; !i; i = true) if (i == nil) print A(i).x; else last = i;"

def classAndLoopTokens : List Token := beforeEnd (tokensOf (scan classAndLoopText))

theorem classAndLoopTokens_free : ∀ t ∈ classAndLoopTokens, t.kind ≠ .endOfInput := by
  intro t member
  simpa using List.mem_takeWhile_imp member

theorem class_and_loop_derived :
    Derives (.rule .program) (classAndLoopTokens ++ [endToken]) ∧
      ¬ Derives (.rule .expression) classAndLoopTokens := by
  obtain ⟨program, expression⟩ := parser_accepts_iff_derives classAndLoopTokens endToken 0
    classAndLoopTokens_free rfl
  refine ⟨program.mp (by cbv), fun derives => ?_⟩
  obtain ⟨e, result⟩ := expression.mpr derives
  cbv at result
  cases result

/-- Parsing undoes writing out, and writing out undoes parsing: any way to write a well-formed
program, such as the plain one, is parsed to that program up to ids, and an expression that was
parsed gives its tokens back when it is written out. -/
theorem parse_inverts_writing :
    (∀ program : List Stmt, Spelled (Stmt.allMarks program) (Stmt.tokens program)) ∧
    (∀ (program : List Stmt) (ts : List Token) (eof : Token) (firstId : Nat),
      Stmt.AllWellFormed program → Spelled (Stmt.allMarks program) ts → eof.kind = .endOfInput →
        (parse (ts ++ [eof]) firstId).errors = [] ∧
          Stmt.eraseAllIds (parse (ts ++ [eof]) firstId).statements = Stmt.eraseAllIds program) ∧
    (∀ (tokens : List Token) (firstId : Nat) (e : Expr),
      (parseExpression tokens firstId).result = .ok e →
        List.Forall₂ Expr.Echoes e.tokens (beforeEnd tokens)) := by
  refine ⟨fun program => Spelled.tokens _, ?_, ?_⟩
  · intro program ts eof firstId wellFormed spelled isEnd
    have spells := spells_declarations program wellFormed spelled
    rw [← spells.beforeEnd isEnd] at spells
    exact parse_of_spells spells
  · intro tokens firstId e result
    have spells := spells_of_parseExpression result
    exact Expr.echoes_of_spelled spells.spelled e.marks_faithful

def nameToken (spelling : String) : Token := ⟨.identifier, spelling, 1⟩

def symbolToken (symbol : Symbol) : Token := ⟨.symbol symbol, symbol.spelling, 1⟩

def classAndLoop : List Stmt :=
  let x := nameToken "x"
  let i := nameToken "i"
  [.classDecl (nameToken "A") (some (.var 0 (nameToken "B")))
      [⟨nameToken "init", [x], [.expression (.set (.this 1 (symbolToken .thisWord)) x (.var 2 x))]⟩],
    .forLoop (some (.var i (some (.literal .nil)))) (some (.unary (symbolToken .bang) (.var 3 i)))
      (some (.assign 4 i (.literal (.bool true))))
      (.branch (.binary (.var 5 i) (symbolToken .equalEqual) (.literal .nil))
        (.print (.get (.call (.var 6 (nameToken "A")) (symbolToken .rightParen) [.var 7 i]) x))
        (some (.expression (.assign 8 (nameToken "last") (.var 9 i)))))]

theorem classAndLoop_wellFormed : Stmt.AllWellFormed classAndLoop := by
  simp [classAndLoop, nameToken, symbolToken, Stmt.forLoop, Stmt.AllWellFormed, Stmt.WellFormed,
    Stmt.MethodsWellFormed, Stmt.FunctionWellFormed, Stmt.IsSuperclass, Stmt.isStatement,
    Stmt.endsOpen, Expr.WellFormed, Expr.AllWellFormed, Expr.level, Parser.maxEntries]
  decide

def storedComparison : Expr :=
  .set (.this 0 (symbolToken .thisWord)) (nameToken "x")
    (.binary (.get (.call (.var 1 (nameToken "A")) (symbolToken .rightParen) [.var 2 (nameToken "i")])
        (nameToken "y"))
      (symbolToken .equalEqual)
      (.unary (symbolToken .bang) (.grouping
        (.logical (.var 3 (nameToken "c")) (symbolToken .orWord) (.var 4 (nameToken "d"))))))

theorem class_and_loop_written_and_read :
    (parse (Stmt.tokens classAndLoop ++ [endToken]) 0).errors = [] ∧
      Stmt.eraseAllIds (parse (Stmt.tokens classAndLoop ++ [endToken]) 0).statements =
        Stmt.eraseAllIds classAndLoop ∧
      List.Forall₂ Expr.Echoes storedComparison.tokens
        (beforeEnd (tokensOf (scan "this.x = A(i).y == !(c or d)"))) := by
  obtain ⟨spelled, reads, echoes⟩ := parse_inverts_writing
  obtain ⟨clean, same⟩ := reads classAndLoop (Stmt.tokens classAndLoop) endToken 0
    classAndLoop_wellFormed (spelled classAndLoop) rfl
  exact ⟨clean, same, echoes (tokensOf (scan "this.x = A(i).y == !(c or d)")) 0 storedComparison
    (by cbv)⟩

end Lox
