import Lox.Proofs.Alike.Reading
import Lox.Proofs.Parser.Program

namespace Lox

open Lox.Parser

def finalToken (ts : List Token) : Token := ts.getLast?.getD ⟨.endOfInput, "", 1⟩

def Relabel.endAs (other : Token) : Relabel where
  blame token := if token.kind = .endOfInput then other else token
  keeps _ notEnd := if_neg notEnd

theorem Relabel.endAs_blame {eof : Token} (isEnd : eof.kind = .endOfInput) (other : Token) :
    (Relabel.endAs other).blame eof = other :=
  if_pos isEnd

section Relabelled

variable {ρ : Relabel} {tokens tokens' : List Token} {firstId : Nat}

theorem fine_of_parse (tokens : List Token) (firstId : Nat) :
    ∀ e ∈ (parse tokens firstId).errors, e.IsFine := by
  have ready := ready_ofTokens tokens firstId
  have follows := (parse_declares (ρ := .none) ready.settled).follows
  obtain ⟨new, errors, fine⟩ := follows.errors
  have all : (parse tokens firstId).errors = new := errors
  rw [all]
  exact fine

theorem parse_relabel
    (start : State.ofTokens tokens' firstId = (State.ofTokens tokens firstId).relabel ρ) :
    (parse tokens' firstId).statements = (parse tokens firstId).statements ∧
      (parse tokens' firstId).errors =
        (parse tokens firstId).errors.map (ParseError.relabel ρ) := by
  have same := (parse_declares (ρ := ρ) (ready_ofTokens tokens firstId).settled).same
  have rest : (State.ofTokens tokens' firstId).rest = (State.ofTokens tokens firstId).rest := by
    rw [start]
    rfl
  simp only [parse, rest]
  rw [start, same]
  exact ⟨rfl, rfl⟩

theorem parseExpression_relabel
    (start : State.ofTokens tokens' firstId = (State.ofTokens tokens firstId).relabel ρ) :
    (parseExpression tokens' firstId).result =
        (parseExpression tokens firstId).result.mapError (List.map (ParseError.relabel ρ)) ∧
      ∀ errors, (parseExpression tokens firstId).result = .error errors →
        ∀ e ∈ errors, e.IsFine := by
  have ends := runs_wholeExpression (ρ := ρ) (ready_ofTokens tokens firstId)
  unfold RunsOn Runs at ends
  simp only [parseExpression]
  rw [start]
  generalize wholeExpression (State.ofTokens tokens firstId) = result at ends
  generalize wholeExpression ((State.ofTokens tokens firstId).relabel ρ) = result' at ends
  cases ends with
  | @ok e t leads _ =>
    obtain ⟨new, errors, fine⟩ := leads.errors
    have all : t.errors = new := errors
    have same : (t.relabel ρ).errors = t.errors.map (ParseError.relabel ρ) := rfl
    simp only [same, List.isEmpty_map]
    split
    · refine ⟨rfl, fun _ failed => ?_⟩
      cases failed
    · refine ⟨rfl, fun _ failed => ?_⟩
      cases failed
      exact all ▸ fine
  | @error e t leads fine =>
    obtain ⟨new, errors, fine'⟩ := leads.errors
    have all : t.errors = new := errors
    refine ⟨?_, fun _ failed => ?_⟩
    · simp [Except.mapError, State.relabel]
    · cases failed
      exact List.forall_mem_append.mpr ⟨all ▸ fine', List.forall_mem_singleton.mpr fine⟩

end Relabelled

section Ends

variable {ts : List Token} {eof : Token} (free : ∀ token ∈ ts, token.kind ≠ .endOfInput)
  (isEnd : eof.kind = .endOfInput)
include free isEnd

theorem ofTokens_cut (us : List Token) (firstId : Nat) :
    State.ofTokens (ts ++ eof :: us) firstId = State.ofTokens (ts ++ [eof]) firstId := by
  rw [ofTokens_append free isEnd, ofTokens_append free isEnd]

theorem ofTokens_open (firstId : Nat) :
    State.ofTokens ts firstId =
      (State.ofTokens (ts ++ [eof]) firstId).relabel (.endAs (finalToken ts)) := by
  rw [ofTokens_free free, ofTokens_append free isEnd]
  simp only [State.relabel, Relabel.endAs_blame isEnd]
  rfl

end Ends

/-- What a list of tokens is parsed to does not depend on what comes behind the end of the input, and
without a token for the end only errors at the end change, which are blamed on the last token then.
An operand is never missing at a number or a string, not even where it is the last token of all. -/
theorem end_of_input_implicit (ts us : List Token) (eof : Token) (firstId firstId' : Nat)
    (free : ∀ token ∈ ts, token.kind ≠ .endOfInput) (isEnd : eof.kind = .endOfInput) :
    (SameStatements (parse (ts ++ [eof]) firstId).statements
        (parse (ts ++ eof :: us) firstId').statements ∧
      (parse (ts ++ eof :: us) firstId').errors = (parse (ts ++ [eof]) firstId).errors ∧
      (parseExpression (ts ++ eof :: us) firstId').erased =
        (parseExpression (ts ++ [eof]) firstId).erased) ∧
    (SameStatements (parse (ts ++ [eof]) firstId).statements (parse ts firstId').statements ∧
      (parse ts firstId').errors = (parse (ts ++ [eof]) firstId).errors.map
        (ParseError.relabel (.endAs (finalToken ts))) ∧
      (parseExpression ts firstId').erased = (parseExpression (ts ++ [eof]) firstId).erased.mapError
        (List.map (ParseError.relabel (.endAs (finalToken ts))))) ∧
    ∀ tokens, (∀ e ∈ (parse tokens firstId).errors, e.IsFine) ∧
      ∀ errors, (parseExpression tokens firstId).result = .error errors → ∀ e ∈ errors, e.IsFine := by
  have cutStatements := parse_again (ts ++ eof :: us) firstId firstId'
  have cutParse : parse (ts ++ eof :: us) firstId = parse (ts ++ [eof]) firstId := by
    simp only [parse, ofTokens_cut free isEnd]
  have cutExpression : parseExpression (ts ++ eof :: us) firstId =
      parseExpression (ts ++ [eof]) firstId := by
    simp only [parseExpression, ofTokens_cut free isEnd]
  rw [cutParse] at cutStatements
  refine ⟨⟨cutStatements.1, cutStatements.2, ?_⟩, ?_,
    fun tokens => ⟨fine_of_parse tokens firstId, ?_⟩⟩
  · rw [parseExpression_again _ firstId firstId', cutExpression]
  · have openStatements := parse_again ts firstId firstId'
    obtain ⟨same, errors⟩ := parse_relabel (ofTokens_open free isEnd firstId)
    have expression := (parseExpression_relabel (ofTokens_open free isEnd firstId)).1
    rw [same, errors] at openStatements
    refine ⟨openStatements.1, openStatements.2, ?_⟩
    rw [parseExpression_again _ firstId firstId', ParsedExpression.erased, expression,
      ParsedExpression.erased]
    cases (parseExpression (ts ++ [eof]) firstId).result <;> rfl
  · exact (parseExpression_relabel (State.relabel_none _).symm).2

def stringToken : Token := ⟨.string "a", "\"a\"", 1⟩

def nilToken : Token := ⟨.symbol .nilWord, "nil", 1⟩

/-- The semicolon is missing at the end, or at the string if there is no token for the end. -/
theorem string_without_semicolon :
    (parse [stringToken, endToken, nilToken] 7).errors = [⟨.expressionEnd, endToken⟩] ∧
      (parse [stringToken] 7).errors = [⟨.expressionEnd, stringToken⟩] := by
  obtain ⟨⟨-, behind, -⟩, ⟨-, without, -⟩, -⟩ :=
    end_of_input_implicit [stringToken] [nilToken] endToken 0 7 (by simp [stringToken]) rfl
  exact ⟨behind.trans rfl, without.trans rfl⟩

end Lox
