import Lox.Proofs.Syntax.WrittenProgram

namespace Lox

def initializerMarks : Option Stmt → List Mark
  | none => [.symbol .semicolon]
  | some first => first.marks

def forHeader (initializer : Option Stmt) (condition increment : Option Expr) : List Mark :=
  .symbol .forWord :: .symbol .leftParen :: initializerMarks initializer ++
    optionMarks [] condition ++ .symbol .semicolon :: optionMarks [] increment ++
      [.symbol .rightParen]

/-- The parts of a program that have rules of their own. A statement is open if it ends in a branch
without alternative, as it is written. -/
inductive Form where
  | statement (isOpen : Bool) (s : Stmt)
  | declaration (s : Stmt)
  | declarations (ss : List Stmt)
  | function (d : FunctionDecl)
  | methods (ds : List FunctionDecl)

/-- The tokens are a way to write the tree. -/
inductive Spells : Form → List Token → Prop where
  | expression {value : Expr} {ts : List Token} (wellFormed : value.WellFormed)
    (spelled : Spelled (Stmt.expression value).marks ts) :
    Spells (.statement false (.expression value)) ts
  | print {value : Expr} {ts : List Token} (wellFormed : value.WellFormed)
    (spelled : Spelled (Stmt.print value).marks ts) : Spells (.statement false (.print value)) ts
  | ret {keyword : Token} {value : Option Expr} {ts : List Token}
    (wellFormed : (Stmt.ret keyword value).WellFormed)
    (spelled : Spelled (Stmt.ret keyword value).marks ts) :
    Spells (.statement false (.ret keyword value)) ts
  | block {statements : List Stmt} {opening closing : Token} {ts : List Token}
    (opens : opening.kind = .symbol .leftBrace) (inside : Spells (.declarations statements) ts)
    (closes : closing.kind = .symbol .rightBrace) :
    Spells (.statement false (.block statements)) (opening :: ts ++ [closing])
  | branch {condition : Expr} {thenBranch : Stmt} {isOpen : Bool} {us ts : List Token}
    (wellFormed : condition.WellFormed) (header : Spelled (conditionMarks .ifWord condition) us)
    (first : Spells (.statement isOpen thenBranch) ts) :
    Spells (.statement true (.branch condition thenBranch none)) (us ++ ts)
  | branchElse {condition : Expr} {thenBranch elseBranch : Stmt} {isOpen : Bool} {elseToken : Token}
    {us ts vs : List Token} (wellFormed : condition.WellFormed)
    (header : Spelled (conditionMarks .ifWord condition) us)
    (first : Spells (.statement false thenBranch) ts) (isElse : elseToken.kind = .symbol .elseWord)
    (second : Spells (.statement isOpen elseBranch) vs) :
    Spells (.statement isOpen (.branch condition thenBranch (some elseBranch)))
      (us ++ ts ++ elseToken :: vs)
  | loop {condition : Expr} {body : Stmt} {isOpen : Bool} {us ts : List Token}
    (wellFormed : condition.WellFormed) (header : Spelled (conditionMarks .whileWord condition) us)
    (inside : Spells (.statement isOpen body) ts) :
    Spells (.statement isOpen (.loop condition body)) (us ++ ts)
  | forLoop {initializer : Option Stmt} {condition increment : Option Expr} {body : Stmt}
    {isOpen : Bool} {us ts : List Token}
    (initializes : ∀ s ∈ initializer, s.IsInitializer ∧ s.WellFormed)
    (tests : ∀ e ∈ condition, e.WellFormed) (steps : ∀ e ∈ increment, e.WellFormed)
    (header : Spelled (forHeader initializer condition increment) us)
    (inside : Spells (.statement isOpen body) ts) :
    Spells (.statement isOpen (.forLoop initializer condition increment body)) (us ++ ts)
  | statement {isOpen : Bool} {s : Stmt} {ts : List Token} (h : Spells (.statement isOpen s) ts) :
    Spells (.declaration s) ts
  | var {name : Token} {initializer : Option Expr} {ts : List Token}
    (wellFormed : (Stmt.var name initializer).WellFormed)
    (spelled : Spelled (Stmt.var name initializer).marks ts) :
    Spells (.declaration (.var name initializer)) ts
  | funDecl {d : FunctionDecl} {word : Token} {ts : List Token} (isFun : word.kind = .symbol .funWord)
    (h : Spells (.function d) ts) : Spells (.declaration (.function d)) (word :: ts)
  | classDecl {name : Token} {superclass : Option Expr} {methods : List FunctionDecl}
    {closing : Token} {us ts : List Token} (isName : name.kind = .identifier)
    (inherits : ∀ e ∈ superclass, Stmt.IsSuperclass e) (header : Spelled (classHeader name superclass) us)
    (inside : Spells (.methods methods) ts) (closes : closing.kind = .symbol .rightBrace) :
    Spells (.declaration (.classDecl name superclass methods)) (us ++ ts ++ [closing])
  | none : Spells (.declarations []) []
  | more {s : Stmt} {ss : List Stmt} {ts us : List Token} (first : Spells (.declaration s) ts)
    (others : Spells (.declarations ss) us) : Spells (.declarations (s :: ss)) (ts ++ us)
  | function {name : Token} {params : List Token} {body : List Stmt} {closing : Token}
    {us ts : List Token} (isName : name.kind = .identifier) (fits : params.length ≤ Parser.maxEntries)
    (areNames : ∀ param ∈ params, param.kind = .identifier)
    (header : Spelled (functionHeader name params) us) (inside : Spells (.declarations body) ts)
    (closes : closing.kind = .symbol .rightBrace) :
    Spells (.function ⟨name, params, body⟩) (us ++ ts ++ [closing])
  | noMethods : Spells (.methods []) []
  | moreMethods {d : FunctionDecl} {ds : List FunctionDecl} {ts us : List Token}
    (first : Spells (.function d) ts) (others : Spells (.methods ds) us) :
    Spells (.methods (d :: ds)) (ts ++ us)

def Stmt.startsStatement (kind : Kind) : Bool :=
  Expr.startsExpression kind ||
    Parser.isOneOf [.forWord, .ifWord, .printWord, .returnWord, .whileWord, .leftBrace] kind

def Stmt.startsDeclaration (kind : Kind) : Bool :=
  Stmt.startsStatement kind || Parser.isOneOf [.classWord, .funWord, .varWord] kind

namespace Spells

variable {s : Stmt} {d : FunctionDecl} {isOpen : Bool} {ts : List Token}

theorem starts_of_header {word : Symbol} {ms : List Mark} {us : List Token} (vs : List Token)
    (header : Spelled (.symbol word :: ms) us) :
    ∃ t rest, us ++ vs = t :: rest ∧ t.kind = .symbol word := by
  obtain ⟨t, rest, isWord, -, rfl⟩ := Spelled.cons_iff.mp header
  exact ⟨t, rest ++ vs, rfl, isWord⟩

theorem statement_starts (h : Spells (.statement isOpen s) ts) :
    ∃ t us, ts = t :: us ∧ Stmt.startsStatement t.kind = true := by
  generalize hf : Form.statement isOpen s = form at h
  induction h with
  | expression wellFormed spelled =>
    obtain ⟨us, vs, rfl, first, -⟩ := Spelled.append_iff.mp spelled
    obtain ⟨t, ws, rfl, starts, -⟩ := startsAt_level _ wellFormed first
    exact ⟨t, ws ++ vs, rfl, by simp [Stmt.startsStatement, starts]⟩
  | print _ spelled =>
    obtain ⟨t, us, isWord, -, rfl⟩ := Spelled.cons_iff.mp spelled
    exact ⟨t, us, rfl, by rw [show t.kind = _ from isWord]; rfl⟩
  | ret wellFormed spelled =>
    obtain ⟨t, us, rfl, -, rfl⟩ := Spelled.cons_iff.mp spelled
    exact ⟨t, us, rfl, by rw [wellFormed.1]; rfl⟩
  | block opens => exact ⟨_, _, rfl, by rw [opens]; rfl⟩
  | branch _ header =>
    obtain ⟨t, us, eq, isWord⟩ := starts_of_header _ header
    exact ⟨t, us, eq, by rw [isWord]; rfl⟩
  | branchElse _ header =>
    rw [List.append_assoc]
    obtain ⟨t, us, eq, isWord⟩ := starts_of_header _ header
    exact ⟨t, us, eq, by rw [isWord]; rfl⟩
  | loop _ header =>
    obtain ⟨t, us, eq, isWord⟩ := starts_of_header _ header
    exact ⟨t, us, eq, by rw [isWord]; rfl⟩
  | forLoop _ _ _ header =>
    obtain ⟨t, us, eq, isWord⟩ := starts_of_header _ header
    exact ⟨t, us, eq, by rw [isWord]; rfl⟩
  | _ => cases hf

theorem declaration_starts (h : Spells (.declaration s) ts) :
    ∃ t us, ts = t :: us ∧ Stmt.startsDeclaration t.kind = true := by
  generalize hf : Form.declaration s = form at h
  cases h with
  | statement h =>
    obtain ⟨t, us, rfl, starts⟩ := h.statement_starts
    exact ⟨t, us, rfl, by simp [Stmt.startsDeclaration, starts]⟩
  | var _ spelled =>
    obtain ⟨t, us, isWord, -, rfl⟩ := Spelled.cons_iff.mp spelled
    exact ⟨t, us, rfl, by rw [show t.kind = _ from isWord]; rfl⟩
  | funDecl isFun => exact ⟨_, _, rfl, by rw [isFun]; rfl⟩
  | classDecl _ _ header =>
    rw [List.append_assoc]
    obtain ⟨t, us, eq, isWord⟩ := starts_of_header _ header
    exact ⟨t, us, eq, by rw [isWord]; rfl⟩
  | _ => cases hf

end Spells

/-- What is well formed about a part of a program, once it could be written. -/
def Form.WellFormed : Form → Prop
  | statement isOpen s => s.WellFormed ∧ s.isStatement = true ∧ (s.endsOpen = true → isOpen = true)
  | declaration s => s.WellFormed
  | declarations ss => Stmt.AllWellFormed ss
  | function d => Stmt.FunctionWellFormed d
  | methods ds => Stmt.MethodsWellFormed ds

namespace Stmt

variable {initializer : Option Stmt} {condition increment : Option Expr} {body : Stmt}

theorem forLoop_isStatement :
    (forLoop initializer condition increment body).isStatement = true := by
  cases initializer <;> rfl

theorem endsOpen_of_forLoop (h : (forLoop initializer condition increment body).endsOpen = true) :
    body.endsOpen = true := by
  cases initializer with
  | some first => simp [forLoop, endsOpen] at h
  | none =>
    cases increment with
    | some step => simp [forLoop, endsOpen] at h
    | none => simpa [forLoop, endsOpen] using h

theorem forLoop_wellFormed (initializes : ∀ s ∈ initializer, s.IsInitializer ∧ s.WellFormed)
    (tests : ∀ e ∈ condition, e.WellFormed) (steps : ∀ e ∈ increment, e.WellFormed)
    (isStatement : body.isStatement = true) (inside : body.WellFormed) :
    (forLoop initializer condition increment body).WellFormed := by
  have test : (condition.getD (.literal (.bool true))).WellFormed := by
    cases condition with
    | none => trivial
    | some e => exact tests e rfl
  have rounds : ∀ round : Stmt, round.isStatement = true → round.WellFormed →
      (loop (condition.getD (.literal (.bool true))) round).WellFormed :=
    fun round shape wellFormed => ⟨test, shape, wellFormed⟩
  cases increment with
  | none =>
    have whole := rounds body isStatement inside
    cases initializer with
    | none => exact whole
    | some first => exact ⟨(initializes first rfl).2, whole, trivial⟩
  | some step =>
    have whole := rounds (block [body, expression step]) rfl ⟨inside, steps step rfl, trivial⟩
    cases initializer with
    | none => exact whole
    | some first => exact ⟨(initializes first rfl).2, whole, trivial⟩

end Stmt

/-- Only well-formed trees can be written, and an open tree has no closed way to be written. -/
theorem Spells.wellFormed {form : Form} {ts : List Token} (h : Spells form ts) :
    form.WellFormed := by
  induction h with
  | expression wellFormed => exact ⟨wellFormed, rfl, nofun⟩
  | print wellFormed => exact ⟨wellFormed, rfl, nofun⟩
  | ret wellFormed => exact ⟨wellFormed, rfl, nofun⟩
  | block _ _ _ ih => exact ⟨ih, rfl, nofun⟩
  | branch wellFormed _ _ ih => exact ⟨⟨wellFormed, ih.2.1, ih.1⟩, rfl, fun _ => rfl⟩
  | branchElse wellFormed _ _ _ _ ih ih' =>
    have closed := Bool.eq_false_iff.mpr fun ends => Bool.false_ne_true (ih.2.2 ends)
    exact ⟨⟨wellFormed, ih.2.1, ih.1, closed, ih'.2.1, ih'.1⟩, rfl, ih'.2.2⟩
  | loop wellFormed _ _ ih => exact ⟨⟨wellFormed, ih.2.1, ih.1⟩, rfl, ih.2.2⟩
  | forLoop initializes tests steps _ _ ih =>
    exact ⟨Stmt.forLoop_wellFormed initializes tests steps ih.2.1 ih.1, Stmt.forLoop_isStatement,
      fun ends => ih.2.2 (Stmt.endsOpen_of_forLoop ends)⟩
  | statement _ ih => exact ih.1
  | var wellFormed => exact wellFormed
  | funDecl _ _ ih => exact ih
  | classDecl isName inherits _ _ _ ih => exact ⟨isName, inherits, ih⟩
  | none => trivial
  | more _ _ ih ih' => exact ⟨ih, ih'⟩
  | function isName fits areNames _ _ _ ih => exact ⟨isName, fits, areNames, ih⟩
  | noMethods => trivial
  | moreMethods _ _ ih ih' => exact ⟨ih, ih'⟩

def Form.ofStmt (s : Stmt) : Form :=
  if s.isStatement then .statement s.endsOpen s else .declaration s

theorem Spells.ofStatement {s : Stmt} {ts : List Token} (h : Spells (.ofStmt s) ts)
    (isStatement : s.isStatement = true) : Spells (.statement s.endsOpen s) ts := by
  rwa [Form.ofStmt, if_pos isStatement] at h

theorem Spells.ofDeclaration {s : Stmt} {ts : List Token} (h : Spells (.ofStmt s) ts) :
    Spells (.declaration s) ts := by
  unfold Form.ofStmt at h
  split at h
  · exact .statement h
  · exact h

mutual

theorem spells_of_wellFormed : (s : Stmt) → s.WellFormed → ∀ {ts}, Spelled s.marks ts →
    Spells (.ofStmt s) ts
  | .expression value, wellFormed, ts, spelled => .expression wellFormed spelled
  | .print value, wellFormed, ts, spelled => .print wellFormed spelled
  | .ret keyword value, wellFormed, ts, spelled => .ret wellFormed spelled
  | .block statements, wellFormed, ts, spelled => by
    obtain ⟨opening, _, opens, behind, rfl⟩ := Spelled.cons_iff.mp spelled
    obtain ⟨us, _, rfl, inside, last⟩ := Spelled.append_iff.mp behind
    obtain ⟨closing, _, closes, empty, rfl⟩ := Spelled.cons_iff.mp last
    cases empty
    exact .block opens (spells_declarations statements wellFormed inside) closes
  | .branch condition thenBranch none, wellFormed, ts, spelled => by
    obtain ⟨us, vs, rfl, header, inside⟩ := Spelled.append_iff.mp spelled
    obtain ⟨conditions, isStatement, wellFormed⟩ := wellFormed
    exact .branch conditions header
      ((spells_of_wellFormed thenBranch wellFormed inside).ofStatement isStatement)
  | .branch condition thenBranch (some elseBranch), wellFormed, ts, spelled => by
    obtain ⟨conditions, isStatement, inside, closed, isStatement', inside'⟩ := wellFormed
    obtain ⟨ws, _, rfl, before, behind⟩ := Spelled.append_iff.mp spelled
    obtain ⟨us, vs, rfl, header, first⟩ := Spelled.append_iff.mp before
    obtain ⟨elseToken, xs, isElse, second, rfl⟩ := Spelled.cons_iff.mp behind
    have spells := (spells_of_wellFormed thenBranch inside first).ofStatement isStatement
    rw [closed] at spells
    exact .branchElse conditions header spells isElse
      ((spells_of_wellFormed elseBranch inside' second).ofStatement isStatement')
  | .loop condition body, wellFormed, ts, spelled => by
    obtain ⟨us, vs, rfl, header, inside⟩ := Spelled.append_iff.mp spelled
    obtain ⟨conditions, isStatement, wellFormed⟩ := wellFormed
    exact .loop conditions header
      ((spells_of_wellFormed body wellFormed inside).ofStatement isStatement)
  | .var name initializer, wellFormed, ts, spelled => .var wellFormed spelled
  | .function declaration, wellFormed, ts, spelled => by
    obtain ⟨word, us, isFun, behind, rfl⟩ := Spelled.cons_iff.mp spelled
    exact .funDecl isFun (spells_function declaration wellFormed behind)
  | .classDecl name superclass methods, wellFormed, ts, spelled => by
    obtain ⟨ws, _, rfl, before, last⟩ := Spelled.append_iff.mp spelled
    obtain ⟨us, vs, rfl, header, inside⟩ := Spelled.append_iff.mp before
    obtain ⟨closing, _, closes, empty, rfl⟩ := Spelled.cons_iff.mp last
    cases empty
    exact .classDecl wellFormed.1 wellFormed.2.1 header
      (spells_methods methods wellFormed.2.2 inside) closes

theorem spells_declarations : (ss : List Stmt) → Stmt.AllWellFormed ss → ∀ {ts},
    Spelled (Stmt.allMarks ss) ts → Spells (.declarations ss) ts
  | [], _, ts, spelled => by
    cases spelled
    exact .none
  | s :: ss, wellFormed, ts, spelled => by
    obtain ⟨us, vs, rfl, first, others⟩ := Spelled.append_iff.mp spelled
    exact .more (spells_of_wellFormed s wellFormed.1 first).ofDeclaration
      (spells_declarations ss wellFormed.2 others)

theorem spells_function : (d : FunctionDecl) → Stmt.FunctionWellFormed d → ∀ {ts},
    Spelled (Stmt.functionMarks d) ts → Spells (.function d) ts
  | ⟨name, params, body⟩, wellFormed, ts, spelled => by
    obtain ⟨ws, _, rfl, before, last⟩ := Spelled.append_iff.mp spelled
    obtain ⟨us, vs, rfl, header, inside⟩ := Spelled.append_iff.mp before
    obtain ⟨closing, _, closes, empty, rfl⟩ := Spelled.cons_iff.mp last
    cases empty
    exact .function wellFormed.1 wellFormed.2.1 wellFormed.2.2.1 header
      (spells_declarations body wellFormed.2.2.2 inside) closes

theorem spells_methods : (ds : List FunctionDecl) → Stmt.MethodsWellFormed ds → ∀ {ts},
    Spelled (Stmt.methodMarks ds) ts → Spells (.methods ds) ts
  | [], _, ts, spelled => by
    cases spelled
    exact .noMethods
  | d :: ds, wellFormed, ts, spelled => by
    obtain ⟨us, vs, rfl, first, others⟩ := Spelled.append_iff.mp spelled
    exact .moreMethods (spells_function d wellFormed.1 first)
      (spells_methods ds wellFormed.2 others)

end

namespace Spells

/-- An alternative behind an open statement belongs to a branch at its end. -/
theorem attach {s alternative : Stmt} {isOpen : Bool} {elseToken : Token} {ts vs : List Token}
    (h : Spells (.statement true s) ts) (isElse : elseToken.kind = .symbol .elseWord)
    (second : Spells (.statement isOpen alternative) vs) :
    ∃ s' isOpen', Spells (.statement isOpen' s') (ts ++ elseToken :: vs) := by
  generalize hf : Form.statement true s = form at h
  induction h generalizing s with
  | @branch condition thenBranch ending us ts wellFormed header first ih =>
    rw [List.append_assoc]
    cases ending with
    | false =>
      have whole := Spells.branchElse wellFormed header first isElse second
      rw [List.append_assoc] at whole
      exact ⟨_, _, whole⟩
    | true =>
      obtain ⟨s', isOpen', inside⟩ := ih rfl
      exact ⟨_, _, .branch wellFormed header inside⟩
  | branchElse wellFormed header first isElse' _ _ ih =>
    cases hf
    obtain ⟨s', isOpen', inside⟩ := ih rfl
    rw [List.append_assoc, List.cons_append]
    exact ⟨_, _, .branchElse wellFormed header first isElse' inside⟩
  | loop wellFormed header _ ih =>
    cases hf
    obtain ⟨s', isOpen', inside⟩ := ih rfl
    rw [List.append_assoc]
    exact ⟨_, _, .loop wellFormed header inside⟩
  | forLoop initializes tests steps header _ ih =>
    cases hf
    obtain ⟨s', isOpen', inside⟩ := ih rfl
    rw [List.append_assoc]
    exact ⟨_, _, .forLoop initializes tests steps header inside⟩
  | _ => cases hf

end Spells

end Lox
