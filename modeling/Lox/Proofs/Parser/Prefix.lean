import Lox.Proofs.Alike.Reading
import Lox.Proofs.Parser.Program

namespace Lox

open Lox.Parser

variable {as bs : List Token} {t : State}

theorem NoElse.beforeEnd (h : NoElse bs) : NoElse (beforeEnd bs) := by
  cases bs with
  | nil => exact h
  | cons token rest =>
    intro first found
    rw [Lox.beforeEnd, List.takeWhile_cons] at found
    split at found
    · exact h first found
    · cases found

theorem last_ofTokens_append (free : ∀ token ∈ as, token.kind ≠ .endOfInput) (filled : bs ≠ [])
    (firstId firstId' : Nat) :
    (State.ofTokens (as ++ bs) firstId).last = (State.ofTokens bs firstId').last := by
  have absent : as.find? (fun token => token.kind == .endOfInput) = none := by simpa using free
  have last : (as ++ bs).getLast? = bs.getLast? := by
    obtain ⟨final, found⟩ := Option.ne_none_iff_exists'.mp (mt List.getLast?_eq_none_iff.mp filled)
    simp [List.getLast?_append, found]
  simp only [State.ofTokens, List.find?_append, absent, Option.none_or, last]

theorem eraseAllIds_append (ss ts : List Stmt) :
    Stmt.eraseAllIds (ss ++ ts) = Stmt.eraseAllIds ss ++ Stmt.eraseAllIds ts := by
  induction ss with
  | nil => rfl
  | cons s rest ih => simp only [List.cons_append, Stmt.eraseAllIds, ih]

/-- Parsing goes on from a state without errors as it begins from the start. -/
theorem declarations_alone (rest : t.rest = beforeEnd bs) (clean : t.errors = [])
    (last : bs ≠ [] → t.last = (State.ofTokens bs 0).last) (firstId : Nat) :
    SameStatements (parse bs firstId).statements
        (declarations (fun _ => false) declaration (beforeEnd bs) t).1 ∧
      (declarations (fun _ => false) declaration (beforeEnd bs) t).2.errors =
        (parse bs firstId).errors := by
  by_cases filled : bs = []
  · subst filled
    exact ⟨rfl, clean⟩
  · have like : State.Like .anyIds (State.ofTokens bs firstId) t := by
      refine ⟨?_, ?_, ?_⟩
      · rw [rest]
        exact forall₂_token_refl _
      · rw [last filled]
        exact .refl _
      · rw [clean]
        exact .nil
    obtain ⟨statements, behind⟩ := declarations_like (declaration_alike fun _ _ => trivial)
      (fun _ => false) (forall₂_token_refl (beforeEnd bs)) like
    exact ⟨statements.eraseAllIds, (eq_of_forall₂ behind.errors fun _ _ like => like.eq).symm⟩

/-- A program without errors keeps its statements, whatever follows that is no alternative of its last
statement, and what follows is parsed as if it stood alone. -/
theorem parse_clean_prefix (as bs : List Token) (eof : Token) (firstId firstId' jointId : Nat)
    (free : ∀ token ∈ as, token.kind ≠ .endOfInput) (isEnd : eof.kind = .endOfInput)
    (clean : (parse (as ++ [eof]) firstId).errors = [])
    (noElse : ∀ token ∈ bs.head?, token.kind ≠ .symbol .elseWord) :
    SameStatements ((parse (as ++ [eof]) firstId).statements ++ (parse bs firstId').statements)
        (parse (as ++ bs) jointId).statements ∧
      (parse (as ++ bs) jointId).errors = (parse bs firstId').errors := by
  have spells := spells_of_parse clean
  rw [beforeEnd_append free isEnd] at spells
  have rest : (State.ofTokens (as ++ bs) jointId).rest = as ++ beforeEnd bs :=
    beforeEnd_append_of_free free bs
  obtain ⟨ss, t, same, rest', last, errors, run⟩ := declarations_behind spells rest
    (NoElse.beforeEnd noElse) (ready_ofTokens _ _).settled (Nat.le_refl _)
  have joint : parse (as ++ bs) jointId =
      ⟨ss ++ (declarations (fun _ => false) declaration (beforeEnd bs) t).1,
        (declarations (fun _ => false) declaration (beforeEnd bs) t).2.errors,
        (declarations (fun _ => false) declaration (beforeEnd bs) t).2.nextId⟩ := by
    simp only [parse]
    rw [run]
  obtain ⟨same', alone⟩ := declarations_alone rest' errors
    (fun filled => last.trans (last_ofTokens_append free filled jointId 0)) firstId'
  rw [joint]
  refine ⟨?_, alone⟩
  simp only [SameStatements, eraseAllIds_append] at same same' ⊢
  rw [same, same']

def brokenTokens : List Token := tokensOf (scan "\x7d var = nil; print last;")

def lastPrinted : Stmt := .print (.var 0 ⟨.identifier, "last", 1⟩)

theorem class_and_loop_kept :
    SameStatements (classAndLoop ++ [lastPrinted])
        (parse (classAndLoopTokens ++ brokenTokens) 0).statements ∧
      (parse (classAndLoopTokens ++ brokenTokens) 0).errors.map ParseError.cause =
        [.expression, .variableName] := by
  have first : brokenTokens.head? = some ⟨.symbol .rightBrace, "\x7d", 1⟩ := by cbv
  obtain ⟨kept, errors⟩ := parse_clean_prefix classAndLoopTokens brokenTokens endToken 0 0 0
    classAndLoopTokens_free rfl (by cbv) (by simp [first])
  have parts : Stmt.eraseAllIds ((parse (classAndLoopTokens ++ [endToken]) 0).statements ++
      (parse brokenTokens 0).statements) = Stmt.eraseAllIds (classAndLoop ++ [lastPrinted]) := by
    cbv
  have causes : (parse brokenTokens 0).errors.map ParseError.cause =
      [.expression, .variableName] := by cbv
  exact ⟨kept.trans parts, errors ▸ causes⟩

end Lox
