import Lox.Parser.Statement
import Lox.Proofs.Parser.ExpressionSound
import Lox.Proofs.Syntax.Spells

namespace Lox.Parser

/-- A statement that could take an alternative is not followed by one. -/
def ReadsStatement (s : Stmt) (read rest : List Token) : Prop :=
  ∃ isOpen, Spells (.statement isOpen s) read ∧
    (isOpen = true → ∀ t ∈ rest.head?, t.kind ≠ .symbol .elseWord)

def ReadsDeclaration (s : Stmt) (read _ : List Token) : Prop := Spells (.declaration s) read

def ReadsFunction (d : FunctionDecl) (read _ : List Token) : Prop := Spells (.function d) read

def ReadsBlock (ss : List Stmt) (read _ : List Token) : Prop :=
  ∃ us closing, read = us ++ [closing] ∧ closing.kind = .symbol .rightBrace ∧
    Spells (.declarations ss) us

def ReadsOption (before : List Mark) (e : Option Expr) (read _ : List Token) : Prop :=
  (∀ inner ∈ e, inner.WellFormed) ∧ Spelled (optionMarks before e) read

def SoundDeclaration (declaration : StateM State (Option Stmt)) : Prop :=
  ∀ s, ∃ new, (declaration s).2.errors = s.errors ++ new ∧
    (new = [] → ∃ st read, (declaration s).1 = some st ∧ s.rest = read ++ (declaration s).2.rest ∧
      Spells (.declaration st) read)

theorem synchronize_errors (s : State) : (synchronize s).errors = s.errors := by
  unfold synchronize
  split <;> rfl

theorem sound_recover {rule : Parser Stmt} (h : Sound rule ReadsDeclaration) :
    SoundDeclaration (recover rule) := by
  intro s
  have start := h s
  cases hr : rule s with
  | ok st s' =>
    simp only [hr] at start
    obtain ⟨new, errors, holds⟩ := start
    refine ⟨new, by simpa [recover, hr] using errors, fun none => ?_⟩
    obtain ⟨read, rest, spells⟩ := holds none
    exact ⟨st, read, by simp [recover, hr], by simpa [recover, hr] using rest, spells⟩
  | error e s' =>
    simp only [hr] at start
    obtain ⟨new, errors⟩ := start
    refine ⟨new ++ [e], ?_, by simp⟩
    simp only [recover, hr, synchronize_errors, State.record, errors, List.append_assoc]

section Declarations

variable {declaration : StateM State (Option Stmt)} {closes : Kind → Bool}

theorem declarations_stop {fuel : List Token} {s : State}
    (stops : ∀ t ∈ s.rest.head?, closes t.kind = true) :
    declarations closes declaration fuel s = ([], s) := by
  cases fuel with
  | nil => rfl
  | cons _ fuel =>
    cases head : s.rest with
    | nil => simp [declarations, head]
    | cons t rest =>
      have isClosing : closes t.kind = true := stops t (by simp [head])
      simp [declarations, head, isClosing]

theorem declarations_cons {spare t : Token} {fuel rest : List Token} {s : State}
    (head : s.rest = t :: rest) (goesOn : closes t.kind = false) :
    declarations closes declaration (spare :: fuel) s =
      ((declaration s).1.toList ++ (declarations closes declaration fuel (declaration s).2).1,
        (declarations closes declaration fuel (declaration s).2).2) := by
  simp only [declarations, head, goesOn]
  rfl

theorem block_eq (s : State) :
    block declaration s =
      (do
        let _ ← expect .rightBrace .blockClosing
        pure (declarations (· == .symbol .rightBrace) declaration s.rest s).1 : Parser (List Stmt))
      (declarations (· == .symbol .rightBrace) declaration s.rest s).2 := rfl

theorem sound_declarations (closes : Kind → Bool) (each : SoundDeclaration declaration)
    (fuel : List Token) (s : State) :
    let result := declarations closes declaration fuel s
    ∃ new, result.2.errors = s.errors ++ new ∧
      (new = [] → ∃ read, s.rest = read ++ result.2.rest ∧ Spells (.declarations result.1) read ∧
        (s.rest.length ≤ fuel.length → ∀ t ∈ result.2.rest.head?, closes t.kind = true)) := by
  induction fuel generalizing s with
  | nil =>
    refine ⟨[], (List.append_nil _).symm, fun _ => ⟨[], rfl, .none, fun enough t found => ?_⟩⟩
    have empty : s.rest = [] := List.length_eq_zero_iff.mp (Nat.le_zero.mp enough)
    simp [declarations, empty] at found
  | cons spare fuel ih =>
    by_cases stops : ∀ t ∈ s.rest.head?, closes t.kind = true
    · rw [declarations_stop stops]
      exact ⟨[], (List.append_nil _).symm, fun _ => ⟨[], rfl, .none, fun _ => stops⟩⟩
    cases head : s.rest with
    | nil => simp [head] at stops
    | cons t rest =>
      rw [declarations_cons head (by simpa [head] using stops), ← head]
      obtain ⟨new, errors, holds⟩ := each s
      obtain ⟨more, errors', holds'⟩ := ih (declaration s).2
      refine ⟨new ++ more, by rw [errors', errors, List.append_assoc], fun none => ?_⟩
      obtain ⟨noneBefore, noneAfter⟩ := List.append_eq_nil_iff.mp none
      obtain ⟨st, us, result, before, first⟩ := holds noneBefore
      obtain ⟨vs, after, others, ends⟩ := holds' noneAfter
      refine ⟨us ++ vs, by rw [List.append_assoc, ← after, before], ?_, fun enough => ends ?_⟩
      · rw [result]
        exact .more first others
      · obtain ⟨t, ws, rfl, -⟩ := first.declaration_starts
        simp only [before, List.length_append, List.length_cons] at enough
        omega

theorem sound_block (each : SoundDeclaration declaration) : Sound (block declaration) ReadsBlock := by
  intro s
  rw [block_eq]
  obtain ⟨new, errors, holds⟩ :=
    sound_declarations (· == .symbol .rightBrace) each s.rest s
  generalize declarations (· == .symbol .rightBrace) declaration s.rest s = result at *
  have closing := Sound.expect .rightBrace .blockClosing result.2
  cases hc : expect .rightBrace .blockClosing result.2 with
  | error e t =>
    simp only [hc] at closing
    rw [bind_error hc]
    obtain ⟨more, errors'⟩ := closing
    exact ⟨new ++ more, by rw [errors', errors, List.append_assoc]⟩
  | ok brace t =>
    simp only [hc] at closing
    rw [bind_ok hc]
    obtain ⟨more, errors', holds'⟩ := closing
    refine ⟨new ++ more, by rw [errors', errors, List.append_assoc], fun none => ?_⟩
    obtain ⟨noneBefore, noneAfter⟩ := List.append_eq_nil_iff.mp none
    obtain ⟨us, before, spells, -⟩ := holds noneBefore
    obtain ⟨_, after, rfl, isClosing⟩ := holds' noneAfter
    exact ⟨us ++ [brace], by rw [before, after, List.append_assoc], us, brace, rfl, isClosing, spells⟩

end Declarations

variable {statement : Parser Stmt} {body : Parser (List Stmt)}

theorem sound_functionRule (kind : FunctionKind) (inside : Sound body ReadsBlock) :
    Sound (functionRule kind body) ReadsFunction := by
  refine (Sound.expectName _).bind fun name _ => (Sound.expect _ _).bind fun opening _ =>
    (sound_entries (P := fun param : Token => param.kind = .identifier)
      (fun param => [.exactly param]) _ ((Sound.expectName _).weaken ?_)).bind fun params ps =>
    (Sound.expect _ _).bind fun closing _ => (Sound.expect _ _).bind fun brace _ =>
    inside.bind fun statements _ => Sound.pure ?_
  · rintro param _ _ ⟨rfl, isName⟩
    exact ⟨isName, Spelled.kept param⟩
  rintro rest ⟨us, last, rfl, isLast, spells⟩ ⟨rfl, isBrace⟩ ⟨rfl, isClosing⟩
    ⟨fits, areNames, written⟩ ⟨rfl, isOpening⟩ ⟨rfl, isName⟩
  have header : Spelled (functionHeader name params) (name :: opening :: ps ++ [closing, brace]) :=
    .cons rfl (.cons isOpening (written.append (.cons isClosing (.cons isBrace .nil))))
  simpa [ReadsFunction] using Spells.function isName fits areNames header spells isLast

theorem sound_methods (inside : Sound body ReadsBlock) (fuel : List Token) :
    Sound (methods body fuel) fun ds read _ => Spells (.methods ds) read := by
  induction fuel with
  | nil => exact Sound.pure fun _ => .noMethods
  | cons _ fuel ih =>
    refine Sound.next?.bind fun found us => ?_
    cases found with
    | none => exact Sound.pure fun _ ⟨empty, _⟩ => by simpa [empty] using Spells.noMethods
    | some token =>
      refine Sound.ite (fun _ => ?_) fun _ => ?_
      · exact Sound.pure fun _ ⟨empty, _⟩ => by simpa [empty] using Spells.noMethods
      · refine (sound_functionRule .method inside).bind fun first _ => ih.bind fun others _ =>
          Sound.pure ?_
        rintro rest more spells ⟨rfl, -⟩
        simpa using Spells.moreMethods spells more

theorem sound_superclassClause :
    Sound superclassClause fun e read _ =>
      (∀ inner ∈ e, Stmt.IsSuperclass inner) ∧ Spelled (optionMarks [.symbol .less] e) read := by
  refine (Sound.accepts .less).bind fun found us => ?_
  refine Sound.ite (fun isFound => ?_) fun notFound => ?_
  · refine (Sound.expectName _).bind fun name _ => Sound.freshId.bind fun id _ => Sound.pure ?_
    rintro rest rfl ⟨rfl, isName⟩ (⟨-, less, rfl, isLess⟩ | ⟨absent, -⟩)
    · exact ⟨by simpa [Stmt.IsSuperclass] using isName, .cons isLess (Spelled.kept name)⟩
    · simp [isFound] at absent
  · refine Sound.pure fun rest => ?_
    rintro (⟨present, -⟩ | ⟨-, rfl, -⟩)
    · exact (notFound present).elim
    · exact ⟨by simp, .nil⟩

theorem sound_classRule (inside : Sound body ReadsBlock) :
    Sound (classRule body) fun s read _ =>
      ∀ word : Token, word.kind = .symbol .classWord → Spells (.declaration s) (word :: read) := by
  refine (Sound.expectName _).bind fun name _ => sound_superclassClause.bind fun superclass cs =>
    (Sound.expect _ _).bind fun opening _ => Sound.remaining.bind fun fuel _ =>
    (sound_methods inside fuel).bind fun members ms => (Sound.expect _ _).bind fun closing _ =>
    Sound.pure ?_
  rintro rest ⟨rfl, isClosing⟩ spells ⟨rfl, -⟩ ⟨rfl, isOpening⟩ ⟨inherits, written⟩ ⟨rfl, isName⟩
    word isClass
  have header : Spelled (classHeader name superclass) (word :: name :: cs ++ [opening]) :=
    .cons isClass (.cons rfl (written.append (.symbol isOpening)))
  simpa using Spells.classDecl isName inherits header spells isClosing

def initializerClause : Parser (Option Expr) := do
  if ← accepts .equal then some <$> expression else pure none

theorem varRule_eq :
    varRule = (do
      let name ← expectName .variableName
      let initializer ← initializerClause
      let _ ← expect .semicolon .variableEnd
      pure (.var name initializer)) := by
  simp only [varRule, initializerClause, bind_assoc]
  refine congrArg _ (funext fun name => congrArg _ (funext fun found => ?_))
  cases found <;> rfl

def elseClause (statement : Parser Stmt) : Parser (Option Stmt) := do
  if ← accepts .elseWord then some <$> statement else pure none

theorem ifRule_eq :
    ifRule statement = (do
      let _ ← expect .leftParen .ifOpening
      let condition ← expression
      let _ ← expect .rightParen .ifClosing
      let thenBranch ← statement
      let elseBranch ← elseClause statement
      pure (.branch condition thenBranch elseBranch)) := by
  simp only [ifRule, elseClause, bind_assoc]
  refine congrArg _ (funext fun opening => congrArg _ (funext fun condition =>
    congrArg _ (funext fun closing => congrArg _ (funext fun thenBranch =>
      congrArg _ (funext fun found => ?_)))))
  cases found <;> rfl

theorem sound_initializerClause : Sound initializerClause (ReadsOption [.symbol .equal]) := by
  refine (Sound.accepts .equal).bind fun found us => ?_
  refine Sound.ite (fun isFound => ?_) fun notFound => ?_
  · refine sound_expression.map ?_
    rintro e read rest ⟨-, wellFormed, spelled⟩ (⟨-, equals, rfl, isEqual⟩ | ⟨absent, -⟩)
    · exact ⟨by simpa using wellFormed, .cons isEqual spelled⟩
    · simp [isFound] at absent
  · refine Sound.pure fun rest => ?_
    rintro (⟨present, -⟩ | ⟨-, rfl, -⟩)
    · exact (notFound present).elim
    · exact ⟨by simp, .nil⟩

theorem sound_expressionUnlessAt (symbol : Symbol) :
    Sound (expressionUnlessAt symbol) (ReadsOption []) := by
  refine (Sound.isAt symbol).bind fun found us => ?_
  refine Sound.ite (fun _ => Sound.pure ?_) fun _ => sound_expression.map ?_
  · rintro rest rfl
    exact ⟨by simp, .nil⟩
  · rintro e read rest ⟨-, wellFormed, spelled⟩ rfl
    exact ⟨by simpa using wellFormed, spelled⟩

theorem sound_varRule :
    Sound varRule fun s read _ => ∃ name initializer, s = .var name initializer ∧ s.WellFormed ∧
      ∀ word : Token, word.kind = .symbol .varWord → Spelled s.marks (word :: read) := by
  rw [varRule_eq]
  refine (Sound.expectName _).bind fun name _ => sound_initializerClause.bind fun initializer is =>
    (Sound.expect _ _).bind fun semicolon _ => Sound.pure ?_
  rintro rest ⟨rfl, isSemicolon⟩ ⟨inside, written⟩ ⟨rfl, isName⟩
  refine ⟨name, initializer, rfl, ⟨isName, inside⟩, fun word isVar => ?_⟩
  have spelled : Spelled (Stmt.var name initializer).marks (word :: name :: is ++ [semicolon]) :=
    .cons isVar (.cons rfl (written.append (.symbol isSemicolon)))
  simpa using spelled

theorem sound_expressionRule :
    Sound expressionRule fun s read _ => ∃ value, s = .expression value ∧ s.WellFormed ∧
      Spelled s.marks read := by
  refine sound_expression.bind fun value _ => (Sound.expect _ _).bind fun semicolon _ =>
    Sound.pure ?_
  rintro rest ⟨rfl, isSemicolon⟩ ⟨-, wellFormed, spelled⟩
  exact ⟨value, rfl, wellFormed, by simpa [Stmt.marks] using spelled.append (.symbol isSemicolon)⟩

theorem sound_forInitializer :
    Sound forInitializer fun first read _ =>
      (∀ s ∈ first, s.IsInitializer ∧ s.WellFormed) ∧ Spelled (initializerMarks first) read := by
  refine (Sound.accepts .semicolon).bind fun found us => ?_
  refine Sound.ite (fun isFound => Sound.pure ?_) fun notFound => ?_
  · rintro rest (⟨-, semicolon, rfl, isSemicolon⟩ | ⟨absent, -⟩)
    · exact ⟨by simp, .symbol isSemicolon⟩
    · simp [isFound] at absent
  refine (Sound.accepts .varWord).bind fun found' vs => ?_
  refine Sound.ite (fun isFound => ?_) fun notFound' => ?_
  · refine sound_varRule.map ?_
    rintro s read rest ⟨name, initializer, rfl, wellFormed, spelled⟩ (⟨-, word, rfl, isVar⟩ | ⟨absent, -⟩)
      (⟨present, -⟩ | ⟨-, rfl, -⟩)
    · exact (notFound present).elim
    · exact ⟨by simpa [Stmt.IsInitializer] using wellFormed, spelled word isVar⟩
    · exact (notFound present).elim
    · simp [isFound] at absent
  · refine sound_expressionRule.map ?_
    rintro s read rest ⟨value, rfl, wellFormed, spelled⟩ (⟨present, -⟩ | ⟨-, rfl, -⟩)
      (⟨present', -⟩ | ⟨-, rfl, -⟩)
    · exact (notFound' present).elim
    · exact (notFound' present).elim
    · exact (notFound present').elim
    · exact ⟨by simpa [Stmt.IsInitializer] using wellFormed, spelled⟩

theorem sound_forRule (nested : Sound statement ReadsStatement) :
    Sound (forRule statement) fun s read rest =>
      ∀ word : Token, word.kind = .symbol .forWord → ReadsStatement s (word :: read) rest := by
  refine (Sound.expect _ _).bind fun opening _ => sound_forInitializer.bind fun initializer is =>
    (sound_expressionUnlessAt _).bind fun condition cs => (Sound.expect _ _).bind fun semicolon _ =>
    (sound_expressionUnlessAt _).bind fun increment ns => (Sound.expect _ _).bind fun closing _ =>
    nested.bind fun inside bs => Sound.pure ?_
  rintro rest ⟨isOpen, spells, free⟩ ⟨rfl, isClosing⟩ ⟨steps, increments⟩ ⟨rfl, isSemicolon⟩
    ⟨tests, conditions⟩ ⟨initializes, first⟩ ⟨rfl, isOpening⟩ word isFor
  have behind : Spelled (.symbol .semicolon :: optionMarks [] increment) (semicolon :: ns) :=
    .cons isSemicolon increments
  have header : Spelled (forHeader initializer condition increment)
      (word :: opening :: is ++ cs ++ semicolon :: ns ++ [closing]) :=
    .cons isFor (.cons isOpening
      (((first.append conditions).append behind).append (.symbol isClosing)))
  refine ⟨isOpen, ?_, free⟩
  simpa using Spells.forLoop initializes tests steps header spells

theorem sound_elseClause (nested : Sound statement ReadsStatement) :
    Sound (elseClause statement) fun s read rest => match s with
      | none => read = [] ∧ ∀ t ∈ rest.head?, t.kind ≠ .symbol .elseWord
      | some s => ∃ elseToken us, read = elseToken :: us ∧ elseToken.kind = .symbol .elseWord ∧
          ReadsStatement s us rest := by
  refine (Sound.accepts .elseWord).bind fun found us => ?_
  refine Sound.ite (fun isFound => ?_) fun notFound => ?_
  · refine nested.map ?_
    rintro s read rest reads (⟨-, elseToken, rfl, isElse⟩ | ⟨absent, -⟩)
    · exact ⟨elseToken, read, rfl, isElse, reads⟩
    · simp [isFound] at absent
  · refine Sound.pure fun rest => ?_
    rintro (⟨present, -⟩ | ⟨-, rfl, free⟩)
    · exact (notFound present).elim
    · exact ⟨rfl, free⟩

theorem sound_ifRule (nested : Sound statement ReadsStatement) :
    Sound (ifRule statement) fun s read rest =>
      ∀ word : Token, word.kind = .symbol .ifWord → ReadsStatement s (word :: read) rest := by
  rw [ifRule_eq]
  refine (Sound.expect _ _).bind fun opening _ => sound_expression.bind fun condition cs =>
    (Sound.expect _ _).bind fun closing _ => nested.bind fun thenBranch ts =>
    (sound_elseClause nested).bind fun elseBranch es => Sound.pure ?_
  rintro rest behind ⟨isOpen, spells, free⟩ ⟨rfl, isClosing⟩ ⟨-, wellFormed, spelled⟩
    ⟨rfl, isOpening⟩ word isIf
  have header : Spelled (conditionMarks .ifWord condition) (word :: opening :: cs ++ [closing]) :=
    .cons isIf (.cons isOpening (spelled.append (.symbol isClosing)))
  cases elseBranch with
  | none =>
    obtain ⟨rfl, noElse⟩ := behind
    refine ⟨true, ?_, fun _ => noElse⟩
    simpa using Spells.branch wellFormed header spells
  | some elseBranch =>
    obtain ⟨elseToken, us, rfl, isElse, isOpen', spells', free'⟩ := behind
    -- An open statement would have taken the alternative itself.
    have closed : isOpen = false := by
      by_contra other
      exact free (by simpa using other) elseToken (by simp) isElse
    subst closed
    refine ⟨isOpen', ?_, free'⟩
    simpa using Spells.branchElse wellFormed header spells isElse spells'

theorem sound_whileRule (nested : Sound statement ReadsStatement) :
    Sound (whileRule statement) fun s read rest =>
      ∀ word : Token, word.kind = .symbol .whileWord → ReadsStatement s (word :: read) rest := by
  refine (Sound.expect _ _).bind fun opening _ => sound_expression.bind fun condition cs =>
    (Sound.expect _ _).bind fun closing _ => nested.bind fun inside ts => Sound.pure ?_
  rintro rest ⟨isOpen, spells, free⟩ ⟨rfl, isClosing⟩ ⟨-, wellFormed, spelled⟩ ⟨rfl, isOpening⟩
    word isWhile
  have header : Spelled (conditionMarks .whileWord condition) (word :: opening :: cs ++ [closing]) :=
    .cons isWhile (.cons isOpening (spelled.append (.symbol isClosing)))
  refine ⟨isOpen, ?_, free⟩
  simpa using Spells.loop wellFormed header spells

theorem sound_printRule :
    Sound printRule fun s read rest =>
      ∀ word : Token, word.kind = .symbol .printWord → ReadsStatement s (word :: read) rest := by
  refine sound_expression.bind fun value vs => (Sound.expect _ _).bind fun semicolon _ =>
    Sound.pure ?_
  rintro rest ⟨rfl, isSemicolon⟩ ⟨-, wellFormed, spelled⟩ word isPrint
  have written : Spelled (Stmt.print value).marks (word :: vs ++ [semicolon]) :=
    .cons isPrint (spelled.append (.symbol isSemicolon))
  exact ⟨false, by simpa using Spells.print wellFormed written, nofun⟩

theorem sound_returnRule (word : Token) (isReturn : word.kind = .symbol .returnWord) :
    Sound (returnRule word) fun s read rest => ReadsStatement s (word :: read) rest := by
  refine (sound_expressionUnlessAt _).bind fun value vs => (Sound.expect _ _).bind
    fun semicolon _ => Sound.pure ?_
  rintro rest ⟨rfl, isSemicolon⟩ ⟨wellFormed, spelled⟩
  have written : Spelled (Stmt.ret word value).marks (word :: vs ++ [semicolon]) :=
    .cons rfl (spelled.append (.symbol isSemicolon))
  exact ⟨false, by simpa using Spells.ret ⟨isReturn, wellFormed⟩ written, nofun⟩

theorem sound_statementRule (nested : Sound statement ReadsStatement)
    (inside : Sound body ReadsBlock) : Sound (statementRule statement body) ReadsStatement := by
  refine (Sound.takeIf _).bind fun found us => ?_
  cases found with
  | none =>
    refine sound_expressionRule.weaken ?_
    rintro s read rest ⟨value, rfl, wellFormed, spelled⟩ ⟨rfl, -⟩
    exact ⟨false, .expression wellFormed spelled, nofun⟩
  | some word =>
    dsimp only
    split
    case h_1 kind =>
      exact (sound_forRule nested).weaken fun s read rest reads ⟨eq, _⟩ => eq ▸ reads word kind
    case h_2 kind =>
      exact (sound_ifRule nested).weaken fun s read rest reads ⟨eq, _⟩ => eq ▸ reads word kind
    case h_3 kind =>
      exact sound_printRule.weaken fun s read rest reads ⟨eq, _⟩ => eq ▸ reads word kind
    case h_4 kind =>
      exact (sound_returnRule word kind).weaken fun s read rest reads ⟨eq, _⟩ => eq ▸ reads
    case h_5 kind =>
      exact (sound_whileRule nested).weaken fun s read rest reads ⟨eq, _⟩ => eq ▸ reads word kind
    case h_6 notFor notIf notPrint notReturn notWhile =>
      refine inside.map ?_
      rintro ss read rest ⟨us, closing, rfl, isClosing, spells⟩ ⟨rfl, isWord⟩
      have opens : word.kind = .symbol .leftBrace := by
        simp only [isOneOf, List.any_cons, List.any_nil, Bool.or_false, Bool.or_eq_true,
          beq_iff_eq] at isWord
        grind
      exact ⟨false, .block opens spells isClosing, nofun⟩

theorem sound_declarationRule (nested : Sound statement ReadsStatement)
    (inside : Sound body ReadsBlock) : Sound (declarationRule statement body) ReadsDeclaration := by
  refine (Sound.takeIf _).bind fun found us => ?_
  cases found with
  | none =>
    refine nested.weaken ?_
    rintro s read rest ⟨isOpen, spells, -⟩ ⟨rfl, -⟩
    exact .statement spells
  | some word =>
    dsimp only
    split
    case h_1 kind =>
      exact (sound_classRule inside).weaken fun s read rest reads ⟨eq, _⟩ => eq ▸ reads word kind
    case h_2 kind =>
      exact (sound_functionRule .function inside).map fun d read rest spells ⟨eq, _⟩ =>
        eq ▸ .funDecl kind spells
    case h_3 notClass notFun =>
      refine sound_varRule.weaken ?_
      rintro s read rest ⟨name, initializer, rfl, wellFormed, spelled⟩ ⟨rfl, isWord⟩
      have isVar : word.kind = .symbol .varWord := by
        simp only [isOneOf, List.any_cons, List.any_nil, Bool.or_false, Bool.or_eq_true,
          beq_iff_eq] at isWord
        grind
      exact .var wellFormed (spelled word isVar)

theorem sound_levels (fuel : List Token) :
    Sound (statementAt fuel) ReadsStatement ∧ SoundDeclaration (declarationAt fuel) := by
  induction fuel with
  | nil => exact ⟨Sound.fail _, sound_recover (Sound.fail _)⟩
  | cons _ fuel ih =>
    obtain ⟨statements, declarations⟩ := ih
    have inside := sound_block declarations
    have nested := sound_statementRule statements inside
    exact ⟨nested, sound_recover (sound_declarationRule nested inside)⟩

theorem sound_declaration : SoundDeclaration declaration :=
  fun s => (sound_levels s.rest).2 s

end Lox.Parser
