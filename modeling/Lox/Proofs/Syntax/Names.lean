import Lox.Proofs.Resolution.Scopes
import Lox.Proofs.Syntax.Spells
import Lox.Token.Scan

namespace Lox

structure Token.IsProper (t : Token) : Prop where
  identifier : t.kind = .identifier → IsPlain t.lexeme
  this : t.kind = .symbol .thisWord → t.lexeme = "this"
  super : t.kind = .symbol .superWord → t.lexeme = "super"

namespace Scan

open CodeUnit

variable {σ : Type} [CodeUnit σ] {line : Nat} {unit : σ} {rest : List σ}

def IsProperStep (next : Step σ) : Prop := ∀ t, next.item = some (.ok t) → t.IsProper

def matters (kind : Kind) : Bool :=
  kind == .identifier || kind == .symbol .thisWord || kind == .symbol .superWord

theorem isProper_of_not_matters {t : Token} (h : matters t.kind = false) : t.IsProper := by
  simp only [matters, Bool.or_eq_false_iff, beq_eq_false_iff_ne] at h
  exact ⟨fun is => absurd is h.1.1, fun is => absurd is h.1.2, fun is => absurd is h.2⟩

theorem isProper_token {kind : Kind} {units : List σ} (h : matters kind = false) :
    IsProperStep (token kind units line rest) := by
  intro t found
  cases found
  exact isProper_of_not_matters h

omit [CodeUnit σ] in
theorem isProper_blank : IsProperStep (⟨none, line, rest⟩ : Step σ) := fun _ found => nomatch found

omit [CodeUnit σ] in
theorem isProper_failure {cause : LexError.Cause} :
    IsProperStep (failure cause line rest) := fun _ found => nomatch found

theorem isProper_symbol {fixed : Symbol} (h : matters (.symbol fixed) = false) :
    IsProperStep (symbol fixed line unit rest) := isProper_token h

theorem isProper_operator {alone extended : Symbol} (first : matters (.symbol alone) = false)
    (second : matters (.symbol extended) = false) :
    IsProperStep (operator alone extended line unit rest) := by
  cases rest with
  | nil =>
    simp only [operator]
    exact isProper_symbol first
  | cons next rest =>
    simp only [operator]
    split
    · exact isProper_token second
    · exact isProper_symbol first

theorem isProper_slash : IsProperStep (slash line unit rest) := by
  cases rest with
  | nil =>
    simp only [slash]
    exact isProper_symbol rfl
  | cons next rest =>
    simp only [slash]
    split
    · exact isProper_blank
    · exact isProper_symbol rfl

theorem isProper_string : IsProperStep (string line unit rest) := by
  simp only [string]
  split
  · exact isProper_failure
  · exact isProper_token rfl

theorem isProper_word : IsProperStep (word line unit rest) := by
  intro t found
  simp only [word, token, Option.some.injEq, Except.ok.injEq] at found
  subst found
  generalize text (unit :: (split continuesWord rest).1) = spelling
  cases reserved : Symbol.word? spelling with
  | none =>
    have plain : IsPlain spelling := by
      constructor <;> (rintro rfl; revert reserved; decide)
    refine ⟨fun _ => plain, fun is => ?_, fun is => ?_⟩
    · cases is
    · cases is
  | some word =>
    have same : word.spelling = spelling := by
      simpa using List.find?_some reserved
    refine ⟨fun is => ?_, fun is => ?_, fun is => ?_⟩
    · cases is
    · cases is
      exact same.symm
    · cases is
      exact same.symm

theorem isProper_step (line : Nat) (unit : σ) (rest : List σ) :
    IsProperStep (step line unit rest) := by
  unfold step
  split
  all_goals first
    | exact isProper_symbol rfl
    | exact isProper_operator rfl rfl
    | exact isProper_blank
    | exact isProper_slash
    | exact isProper_string
    | skip
  split
  · exact isProper_token rfl
  split
  · exact isProper_word
  · exact isProper_failure

theorem isProper_items (line : Nat) (units : List σ) :
    ∀ t, .ok t ∈ items line units → t.IsProper := by
  induction line, units using items.induct with
  | case1 line =>
    intro t found
    rw [items, List.mem_singleton] at found
    cases found
    exact ⟨nofun, nofun, nofun⟩
  | case2 line unit rest next smaller ih =>
    intro t found
    rw [items] at found
    rcases List.mem_append.mp found with first | later
    · exact isProper_step line unit rest t (Option.mem_toList.mp first)
    · exact ih t later

end Scan

theorem isProper_scan (source : String) : ∀ t ∈ tokensOf (scan source), t.IsProper := by
  intro t found
  obtain ⟨item, member, same⟩ := List.mem_filterMap.mp found
  cases item with
  | error e => cases same
  | ok t' =>
    cases same
    exact Scan.isProper_items _ _ t member

/-- The tokens that a tree holds, written out as these marks, are spelled as they should be. -/
def AreProper (ms : List Mark) : Prop := ∀ t, .exactly t ∈ ms → t.IsProper

namespace AreProper

variable {ms ns : List Mark} {ts : List Token}

@[simp] theorem nil : AreProper [] := nofun

@[simp] theorem append_iff : AreProper (ms ++ ns) ↔ AreProper ms ∧ AreProper ns := by
  simp only [AreProper, List.mem_append, or_imp, forall_and]

@[simp] theorem exactly_iff {t : Token} :
    AreProper (.exactly t :: ms) ↔ t.IsProper ∧ AreProper ms := by
  simp [AreProper]

@[simp] theorem anyOf_iff {kind : Kind} : AreProper (.anyOf kind :: ms) ↔ AreProper ms := by
  simp [AreProper]

@[simp] theorem symbol_iff {fixed : Symbol} :
    AreProper (.symbol fixed :: ms) ↔ AreProper ms := by
  simp [AreProper, Mark.symbol]

theorem entries_iff {α : Type} {marks : α → List Mark} {items : List α} :
    AreProper (entryMarks marks items) ↔ ∀ item ∈ items, AreProper (marks item) := by
  have following (rest : List α) :
      AreProper (rest.flatMap fun item => .symbol .comma :: marks item) ↔
        ∀ item ∈ rest, AreProper (marks item) := by
    induction rest with
    | nil => simp
    | cons item rest ih => simp [ih]
  cases items with
  | nil => simp [entryMarks]
  | cons item rest => simp [entryMarks, following]

theorem iff_forall : AreProper ms ↔ ∀ mark ∈ ms, ∀ t, mark = .exactly t → t.IsProper :=
  ⟨fun h _ member t same => h t (same ▸ member), fun h t member => h _ member t rfl⟩

theorem of_admits (proper : ∀ t ∈ ts, t.IsProper) :
    ∀ t ∈ ts, ∀ mark : Mark, mark.Admits t → ∀ t', mark = .exactly t' → t'.IsProper := by
  rintro t member _ admits t' rfl
  obtain rfl : t = t' := admits
  exact proper t member

theorem of_spelled (spelled : Spelled ms ts) (proper : ∀ t ∈ ts, t.IsProper) : AreProper ms :=
  iff_forall.mpr (spelled.forall_marks (of_admits proper))

end AreProper

def Form.marks : Form → List Mark
  | statement _ s | declaration s => s.marks
  | declarations ss => Stmt.allMarks ss
  | function d => Stmt.functionMarks d
  | methods ds => Stmt.methodMarks ds

section Marks

variable {p : Mark → Prop} (symbols : ∀ fixed, p (.symbol fixed))
include symbols

theorem Stmt.forall_forLoop_marks {initializer : Option Stmt} {condition increment : Option Expr}
    {body : Stmt} (header : ∀ mark ∈ forHeader initializer condition increment, p mark)
    (inside : ∀ mark ∈ body.marks, p mark) :
    ∀ mark ∈ (forLoop initializer condition increment body).marks, p mark := by
  have true : p (.anyOf (Literal.bool true).kind) := symbols .trueWord
  cases initializer <;> cases condition <;> cases increment <;>
    simp_all [forHeader, forLoop, initializerMarks, optionMarks, Stmt.marks, Stmt.allMarks,
      conditionMarks, Expr.marks, or_imp, forall_and]

theorem Spells.forall_marks {form : Form} {ts : List Token} (h : Spells form ts)
    (each : ∀ t ∈ ts, ∀ mark, mark.Admits t → p mark) : ∀ mark ∈ form.marks, p mark := by
  induction h with
  | expression _ spelled => exact spelled.forall_marks each
  | print _ spelled => exact spelled.forall_marks each
  | ret _ spelled => exact spelled.forall_marks each
  | var _ spelled => exact spelled.forall_marks each
  | block _ _ _ ih =>
    have inside := ih fun t member => each t (by simp [member])
    simpa [Form.marks, Stmt.marks, symbols, or_imp, forall_and] using inside
  | branch _ header _ ih =>
    have condition := header.forall_marks fun t member => each t (by simp [member])
    have inside := ih fun t member => each t (by simp [member])
    exact List.forall_mem_append.mpr ⟨condition, inside⟩
  | branchElse _ header _ _ _ ih ih' =>
    have condition := header.forall_marks fun t member => each t (by simp [member])
    have first := ih fun t member => each t (by simp [member])
    have second := ih' fun t member => each t (by simp [member])
    simp only [Form.marks, Stmt.marks, List.forall_mem_append, List.forall_mem_cons]
    exact ⟨⟨condition, first⟩, symbols _, second⟩
  | loop _ header _ ih =>
    have condition := header.forall_marks fun t member => each t (by simp [member])
    have inside := ih fun t member => each t (by simp [member])
    exact List.forall_mem_append.mpr ⟨condition, inside⟩
  | forLoop _ _ _ header _ ih =>
    have clauses := header.forall_marks fun t member => each t (by simp [member])
    have inside := ih fun t member => each t (by simp [member])
    exact Stmt.forall_forLoop_marks symbols clauses inside
  | statement _ ih => exact ih each
  | funDecl _ _ ih =>
    have inside := ih fun t member => each t (List.mem_cons_of_mem _ member)
    exact List.forall_mem_cons.mpr ⟨symbols _, inside⟩
  | classDecl _ _ header _ _ ih =>
    have name := header.forall_marks fun t member => each t (by simp [member])
    have inside := ih fun t member => each t (by simp [member])
    simp only [Form.marks, Stmt.marks, List.forall_mem_append, List.forall_mem_singleton]
    exact ⟨⟨name, inside⟩, symbols _⟩
  | none => exact List.forall_mem_nil _
  | more _ _ ih ih' =>
    have first := ih fun t member => each t (by simp [member])
    have others := ih' fun t member => each t (by simp [member])
    exact List.forall_mem_append.mpr ⟨first, others⟩
  | function _ _ _ header _ _ ih =>
    have name := header.forall_marks fun t member => each t (by simp [member])
    have inside := ih fun t member => each t (by simp [member])
    simp only [Form.marks, Stmt.functionMarks, List.forall_mem_append, List.forall_mem_singleton]
    exact ⟨⟨name, inside⟩, symbols _⟩
  | noMethods => exact List.forall_mem_nil _
  | moreMethods _ _ ih ih' =>
    have first := ih fun t member => each t (by simp [member])
    have others := ih' fun t member => each t (by simp [member])
    exact List.forall_mem_append.mpr ⟨first, others⟩

end Marks

theorem Spells.areProper {form : Form} {ts : List Token} (h : Spells form ts)
    (proper : ∀ t ∈ ts, t.IsProper) : AreProper form.marks :=
  AreProper.iff_forall.mpr (h.forall_marks (fun _ => nofun) (AreProper.of_admits proper))

end Lox
