import Lox.Proofs.Parser.StatementComplete
import Mathlib.Data.List.Forall2
import Mathlib.Data.Option.Basic

namespace Lox

/-- Which lines a token of one program may have in the other. -/
structure Lines where
  admits : Token → Nat → Prop

def Lines.still : Lines := ⟨fun t line => line = t.line⟩

def Lines.Keeps (lines : Lines) (ts : List Token) : Prop := ∀ t ∈ ts, lines.admits t t.line

structure Token.Like (lines : Lines) (t t' : Token) : Prop where
  kind : t'.kind = t.kind
  lexeme : t'.lexeme = t.lexeme
  line : lines.admits t t'.line

theorem Token.Like.refl (t : Token) : t.Like .still t := ⟨rfl, rfl, rfl⟩

theorem Lines.Keeps.like {lines : Lines} {ts : List Token} (h : lines.Keeps ts) :
    List.Forall₂ (Token.Like lines) ts ts :=
  List.forall₂_same.mpr fun t member => ⟨rfl, rfl, h t member⟩

theorem forall₂_token_refl (ts : List Token) : List.Forall₂ (Token.Like .still) ts ts :=
  List.forall₂_same.mpr fun t _ => .refl t

theorem Token.Like.eq {t t' : Token} (h : t.Like .still t') : t' = t := by
  obtain ⟨kind, lexeme, line⟩ := t
  obtain ⟨kind', lexeme', line'⟩ := t'
  obtain ⟨rfl, rfl, rfl⟩ := h
  rfl

theorem eq_of_forall₂ {α : Type} {R : α → α → Prop} {as bs : List α} (h : List.Forall₂ R as bs)
    (implies : ∀ a b, R a b → a = b) : as = bs := by
  have same : List.Forall₂ Eq as bs := h.imp implies
  rwa [List.forall₂_eq_eq_eq] at same

theorem Token.Like.eqAll {ts ts' : List Token} (h : List.Forall₂ (Token.Like .still) ts ts') :
    ts' = ts :=
  (eq_of_forall₂ h fun _ _ like => like.eq.symm).symm

theorem Token.Like.mono {lines lines' : Lines}
    (more : ∀ t line, lines.admits t line → lines'.admits t line) {t t' : Token}
    (h : t.Like lines t') : t.Like lines' t' :=
  ⟨h.kind, h.lexeme, more _ _ h.line⟩

/-- In addition, which ids of the two programs belong to the same occurrence. -/
structure Matching extends Lines where
  ids : Nat → Nat → Prop

instance : Coe Matching Lines := ⟨Matching.toLines⟩

namespace Matching

def unnumbered (lines : Lines) : Matching := ⟨lines, fun _ _ => True⟩

def anyIds : Matching := unnumbered .still

structure Within (M N : Matching) : Prop where
  lines : ∀ t line, M.admits t line → N.admits t line
  ids : ∀ id id', M.ids id id' → N.ids id id'

end Matching

variable {M : Matching}

theorem lexemes_of_forall₂ {ts ts' : List Token} (h : List.Forall₂ (Token.Like M) ts ts') :
    ts'.map Token.lexeme = ts.map Token.lexeme := by
  induction h with
  | nil => rfl
  | cons first _ ih => rw [List.map_cons, List.map_cons, first.lexeme, ih]

mutual

/-- The same expression but for the lines of its tokens and the ids of its occurrences. -/
inductive Expr.Like (M : Matching) : Expr → Expr → Prop where
  | literal (value : Literal) : Like M (.literal value) (.literal value)
  | grouping {inner inner' : Expr} (inside : Like M inner inner') :
    Like M (.grouping inner) (.grouping inner')
  | unary {operator operator' : Token} {operand operand' : Expr} (token : operator.Like M operator')
    (inside : Like M operand operand') :
    Like M (.unary operator operand) (.unary operator' operand')
  | binary {left left' right right' : Expr} {operator operator' : Token} (first : Like M left left')
    (token : operator.Like M operator') (second : Like M right right') :
    Like M (.binary left operator right) (.binary left' operator' right')
  | logical {left left' right right' : Expr} {operator operator' : Token}
    (first : Like M left left') (token : operator.Like M operator') (second : Like M right right') :
    Like M (.logical left operator right) (.logical left' operator' right')
  | var {id id' : Nat} {name name' : Token} (same : M.ids id id') (token : name.Like M name') :
    Like M (.var id name) (.var id' name')
  | assign {id id' : Nat} {name name' : Token} {value value' : Expr} (same : M.ids id id')
    (token : name.Like M name') (inside : Like M value value') :
    Like M (.assign id name value) (.assign id' name' value')
  | call {callee callee' : Expr} {paren paren' : Token} {arguments arguments' : List Expr}
    (first : Like M callee callee') (token : paren.Like M paren')
    (rest : AllLike M arguments arguments') :
    Like M (.call callee paren arguments) (.call callee' paren' arguments')
  | get {object object' : Expr} {name name' : Token} (first : Like M object object')
    (token : name.Like M name') : Like M (.get object name) (.get object' name')
  | set {object object' value value' : Expr} {name name' : Token} (first : Like M object object')
    (token : name.Like M name') (second : Like M value value') :
    Like M (.set object name value) (.set object' name' value')
  | this {id id' : Nat} {keyword keyword' : Token} (same : M.ids id id')
    (token : keyword.Like M keyword') : Like M (.this id keyword) (.this id' keyword')
  | super {id id' : Nat} {keyword keyword' method method' : Token} (same : M.ids id id')
    (token : keyword.Like M keyword') (name : method.Like M method') :
    Like M (.super id keyword method) (.super id' keyword' method')

inductive Expr.AllLike (M : Matching) : List Expr → List Expr → Prop where
  | nil : AllLike M [] []
  | cons {e e' : Expr} {rest rest' : List Expr} (first : Like M e e')
    (others : AllLike M rest rest') : AllLike M (e :: rest) (e' :: rest')

end

inductive Expr.OptionLike (M : Matching) : Option Expr → Option Expr → Prop where
  | none : OptionLike M none none
  | some {e e' : Expr} (inside : e.Like M e') : OptionLike M (some e) (some e')

mutual

inductive Stmt.Like (M : Matching) : Stmt → Stmt → Prop where
  | expression {value value' : Expr} (inside : value.Like M value') :
    Like M (.expression value) (.expression value')
  | print {value value' : Expr} (inside : value.Like M value') :
    Like M (.print value) (.print value')
  | var {name name' : Token} {initializer initializer' : Option Expr} (token : name.Like M name')
    (inside : Expr.OptionLike M initializer initializer') :
    Like M (.var name initializer) (.var name' initializer')
  | block {statements statements' : List Stmt} (inside : AllLike M statements statements') :
    Like M (.block statements) (.block statements')
  | branch {condition condition' : Expr} {thenBranch thenBranch' : Stmt}
    (test : condition.Like M condition') (first : Like M thenBranch thenBranch') :
    Like M (.branch condition thenBranch none) (.branch condition' thenBranch' none)
  | branchElse {condition condition' : Expr} {thenBranch thenBranch' elseBranch elseBranch' : Stmt}
    (test : condition.Like M condition') (first : Like M thenBranch thenBranch')
    (second : Like M elseBranch elseBranch') :
    Like M (.branch condition thenBranch (some elseBranch))
      (.branch condition' thenBranch' (some elseBranch'))
  | loop {condition condition' : Expr} {body body' : Stmt} (test : condition.Like M condition')
    (inside : Like M body body') : Like M (.loop condition body) (.loop condition' body')
  | function {d d' : FunctionDecl} (inside : FunctionLike M d d') :
    Like M (.function d) (.function d')
  | ret {keyword keyword' : Token} {value value' : Option Expr} (token : keyword.Like M keyword')
    (inside : Expr.OptionLike M value value') : Like M (.ret keyword value) (.ret keyword' value')
  | classDecl {name name' : Token} {superclass superclass' : Option Expr}
    {methods methods' : List FunctionDecl} (token : name.Like M name')
    (inherited : Expr.OptionLike M superclass superclass')
    (members : MethodsLike M methods methods') :
    Like M (.classDecl name superclass methods) (.classDecl name' superclass' methods')

inductive Stmt.FunctionLike (M : Matching) : FunctionDecl → FunctionDecl → Prop where
  | mk {name name' : Token} {params params' : List Token} {body body' : List Stmt}
    (token : name.Like M name') (tokens : List.Forall₂ (Token.Like M) params params')
    (inside : AllLike M body body') : FunctionLike M ⟨name, params, body⟩ ⟨name', params', body'⟩

inductive Stmt.MethodsLike (M : Matching) : List FunctionDecl → List FunctionDecl → Prop where
  | nil : MethodsLike M [] []
  | cons {d d' : FunctionDecl} {rest rest' : List FunctionDecl} (first : FunctionLike M d d')
    (others : MethodsLike M rest rest') : MethodsLike M (d :: rest) (d' :: rest')

inductive Stmt.AllLike (M : Matching) : List Stmt → List Stmt → Prop where
  | nil : AllLike M [] []
  | cons {s s' : Stmt} {rest rest' : List Stmt} (first : Like M s s')
    (others : AllLike M rest rest') : AllLike M (s :: rest) (s' :: rest')

end

namespace Stmt.FunctionLike

variable {d d' : FunctionDecl}

theorem name (h : FunctionLike M d d') : d.name.Like M d'.name := by
  obtain ⟨token, -, -⟩ := h
  exact token

theorem params (h : FunctionLike M d d') :
    List.Forall₂ (Token.Like M) d.params d'.params := by
  obtain ⟨-, tokens, -⟩ := h
  exact tokens

theorem body (h : FunctionLike M d d') : AllLike M d.body d'.body := by
  obtain ⟨-, -, inside⟩ := h
  exact inside

end Stmt.FunctionLike

theorem Stmt.AllLike.append {ss ss' ts ts' : List Stmt} (first : AllLike M ss ss')
    (second : AllLike M ts ts') : AllLike M (ss ++ ts) (ss' ++ ts') := by
  induction ss generalizing ss' with
  | nil =>
    cases first
    exact second
  | cons s ss ih =>
    cases first with
    | cons like others => exact .cons like (ih others)

theorem Stmt.AllLike.append_left {ss ts us : List Stmt} (h : AllLike M (ss ++ ts) us) :
    ∃ ss' ts', us = ss' ++ ts' ∧ AllLike M ss ss' ∧ AllLike M ts ts' := by
  induction ss generalizing us with
  | nil => exact ⟨[], us, rfl, .nil, h⟩
  | cons s ss ih =>
    cases h with
    | @cons _ s' _ _ like others =>
      obtain ⟨ss', ts', rfl, first, second⟩ := ih others
      exact ⟨s' :: ss', ts', rfl, .cons like first, second⟩

theorem Token.Like.join {lines : Lines} {t t' u : Token} (h : t.Like lines u)
    (k : t'.Like .still u) : t.Like lines t' := by
  obtain rfl : u = t' := k.eq
  exact h

mutual

theorem Expr.like_eraseIds : (e : Expr) → e.Like .anyIds e.eraseIds
  | .literal value => .literal value
  | .grouping inner => .grouping inner.like_eraseIds
  | .unary _ operand => .unary (.refl _) operand.like_eraseIds
  | .binary left _ right => .binary left.like_eraseIds (.refl _) right.like_eraseIds
  | .logical left _ right => .logical left.like_eraseIds (.refl _) right.like_eraseIds
  | .var _ _ => .var trivial (.refl _)
  | .assign _ _ value => .assign trivial (.refl _) value.like_eraseIds
  | .call callee _ arguments =>
    .call callee.like_eraseIds (.refl _) (allLike_eraseAllIds arguments)
  | .get object _ => .get object.like_eraseIds (.refl _)
  | .set object _ value => .set object.like_eraseIds (.refl _) value.like_eraseIds
  | .this _ _ => .this trivial (.refl _)
  | .super _ _ _ => .super trivial (.refl _) (.refl _)

theorem Expr.allLike_eraseAllIds : (es : List Expr) → AllLike .anyIds es (eraseAllIds es)
  | [] => .nil
  | e :: rest => .cons e.like_eraseIds (allLike_eraseAllIds rest)

end

mutual

theorem Expr.Like.join {e e' a : Expr} :
    e.Like M a → e'.Like .anyIds a → e.Like (.unnumbered M) e'
  | .literal value, .literal _ => .literal value
  | .grouping h, .grouping k => .grouping (h.join k)
  | .unary t h, .unary u k => .unary (t.join u) (h.join k)
  | .binary h t h', .binary k u k' => .binary (h.join k) (t.join u) (h'.join k')
  | .logical h t h', .logical k u k' => .logical (h.join k) (t.join u) (h'.join k')
  | .var _ t, .var _ u => .var trivial (t.join u)
  | .assign _ t h, .assign _ u k => .assign trivial (t.join u) (h.join k)
  | .call h t hs, .call k u ks => .call (h.join k) (t.join u) (hs.join ks)
  | .get h t, .get k u => .get (h.join k) (t.join u)
  | .set h t h', .set k u k' => .set (h.join k) (t.join u) (h'.join k')
  | .this _ t, .this _ u => .this trivial (t.join u)
  | .super _ t t', .super _ u u' => .super trivial (t.join u) (t'.join u')

theorem Expr.AllLike.join {es es' as : List Expr} :
    AllLike M es as → AllLike .anyIds es' as → AllLike (.unnumbered M) es es'
  | .nil, .nil => .nil
  | .cons h hs, .cons k ks => .cons (h.join k) (hs.join ks)

end

theorem Expr.optionLike_erase : (e : Option Expr) → OptionLike .anyIds e (e.map eraseIds)
  | none => .none
  | some e => .some e.like_eraseIds

theorem Expr.OptionLike.join {e e' a : Option Expr} :
    OptionLike M e a → OptionLike .anyIds e' a → OptionLike (.unnumbered M) e e'
  | .none, .none => .none
  | .some h, .some k => .some (h.join k)

mutual

theorem Stmt.like_eraseIds : (s : Stmt) → s.Like .anyIds s.eraseIds
  | .expression value => .expression value.like_eraseIds
  | .print value => .print value.like_eraseIds
  | .var _ initializer => .var (.refl _) (Expr.optionLike_erase initializer)
  | .block statements => .block (allLike_eraseAllIds statements)
  | .branch condition thenBranch none => .branch condition.like_eraseIds thenBranch.like_eraseIds
  | .branch condition thenBranch (some elseBranch) =>
    .branchElse condition.like_eraseIds thenBranch.like_eraseIds elseBranch.like_eraseIds
  | .loop condition body => .loop condition.like_eraseIds body.like_eraseIds
  | .function d => .function (functionLike_erase d)
  | .ret _ value => .ret (.refl _) (Expr.optionLike_erase value)
  | .classDecl _ superclass methods =>
    .classDecl (.refl _) (Expr.optionLike_erase superclass) (methodsLike_erase methods)

theorem Stmt.functionLike_erase : (d : FunctionDecl) → FunctionLike .anyIds d (eraseFunctionIds d)
  | ⟨_, params, body⟩ => .mk (.refl _) (forall₂_token_refl params) (allLike_eraseAllIds body)

theorem Stmt.methodsLike_erase : (ds : List FunctionDecl) →
    MethodsLike .anyIds ds (eraseMethodIds ds)
  | [] => .nil
  | d :: rest => .cons (functionLike_erase d) (methodsLike_erase rest)

theorem Stmt.allLike_eraseAllIds : (ss : List Stmt) → AllLike .anyIds ss (eraseAllIds ss)
  | [] => .nil
  | s :: rest => .cons s.like_eraseIds (allLike_eraseAllIds rest)

end

theorem Token.Like.joinAll {lines : Lines} {ts ts' us : List Token}
    (h : List.Forall₂ (Token.Like lines) ts us) (k : List.Forall₂ (Token.Like .still) ts' us) :
    List.Forall₂ (Token.Like lines) ts ts' := by
  induction h generalizing ts' with
  | nil =>
    cases k
    exact .nil
  | cons first _ ih =>
    cases k with
    | cons first' others => exact .cons (first.join first') (ih others)

mutual

theorem Stmt.Like.join {s s' a : Stmt} :
    s.Like M a → s'.Like .anyIds a → s.Like (.unnumbered M) s'
  | .expression h, .expression k => .expression (h.join k)
  | .print h, .print k => .print (h.join k)
  | .var t h, .var u k => .var (t.join u) (h.join k)
  | .block h, .block k => .block (h.join k)
  | .branch c h, .branch d k => .branch (c.join d) (h.join k)
  | .branchElse c h h', .branchElse d k k' => .branchElse (c.join d) (h.join k) (h'.join k')
  | .loop c h, .loop d k => .loop (c.join d) (h.join k)
  | .function h, .function k => .function (h.join k)
  | .ret t h, .ret u k => .ret (t.join u) (h.join k)
  | .classDecl t h hs, .classDecl u k ks => .classDecl (t.join u) (h.join k) (hs.join ks)

theorem Stmt.FunctionLike.join {d d' a : FunctionDecl} :
    FunctionLike M d a → FunctionLike .anyIds d' a → FunctionLike (.unnumbered M) d d'
  | .mk t ts h, .mk u us k => .mk (t.join u) (Token.Like.joinAll ts us) (h.join k)

theorem Stmt.MethodsLike.join {ds ds' as : List FunctionDecl} :
    MethodsLike M ds as → MethodsLike .anyIds ds' as → MethodsLike (.unnumbered M) ds ds'
  | .nil, .nil => .nil
  | .cons h hs, .cons k ks => .cons (h.join k) (hs.join ks)

theorem Stmt.AllLike.join {ss ss' as : List Stmt} :
    AllLike M ss as → AllLike .anyIds ss' as → AllLike (.unnumbered M) ss ss'
  | .nil, .nil => .nil
  | .cons h hs, .cons k ks => .cons (h.join k) (hs.join ks)

end

theorem SameStatements.allLike {ss ss' : List Stmt} (same : SameStatements ss ss') :
    Stmt.AllLike .anyIds ss ss' :=
  (Stmt.allLike_eraseAllIds ss).join (same ▸ Stmt.allLike_eraseAllIds ss')

mutual

theorem Expr.Like.eraseIds {e e' : Expr} : e.Like .anyIds e' → e'.eraseIds = e.eraseIds
  | .literal _ => rfl
  | .grouping h => by simp only [Expr.eraseIds, h.eraseIds]
  | .unary t h => by simp only [Expr.eraseIds, t.eq, h.eraseIds]
  | .binary h t h' | .logical h t h' => by
    simp only [Expr.eraseIds, t.eq, h.eraseIds, h'.eraseIds]
  | .var _ t | .this _ t => by simp only [Expr.eraseIds, t.eq]
  | .assign _ t h => by simp only [Expr.eraseIds, t.eq, h.eraseIds]
  | .call h t hs => by simp only [Expr.eraseIds, t.eq, h.eraseIds, hs.eraseAllIds]
  | .get h t => by simp only [Expr.eraseIds, t.eq, h.eraseIds]
  | .set h t h' => by simp only [Expr.eraseIds, t.eq, h.eraseIds, h'.eraseIds]
  | .super _ t t' => by simp only [Expr.eraseIds, t.eq, t'.eq]

theorem Expr.AllLike.eraseAllIds {es es' : List Expr} :
    AllLike .anyIds es es' → Expr.eraseAllIds es' = Expr.eraseAllIds es
  | .nil => rfl
  | .cons h hs => by simp only [Expr.eraseAllIds, h.eraseIds, hs.eraseAllIds]

end

theorem Expr.OptionLike.eraseIds {e e' : Option Expr} :
    OptionLike .anyIds e e' → e'.map Expr.eraseIds = e.map Expr.eraseIds
  | .none => rfl
  | .some h => congrArg Option.some h.eraseIds

mutual

theorem Stmt.Like.eraseIds {s s' : Stmt} : s.Like .anyIds s' → s'.eraseIds = s.eraseIds
  | .expression h => by simp only [Stmt.eraseIds, h.eraseIds]
  | .print h => by simp only [Stmt.eraseIds, h.eraseIds]
  | .var t h => by simp only [Stmt.eraseIds, t.eq, h.eraseIds]
  | .block h => by simp only [Stmt.eraseIds, h.eraseAllIds]
  | .branch c h => by simp only [Stmt.eraseIds, c.eraseIds, h.eraseIds]
  | .branchElse c h h' => by simp only [Stmt.eraseIds, c.eraseIds, h.eraseIds, h'.eraseIds]
  | .loop c h => by simp only [Stmt.eraseIds, c.eraseIds, h.eraseIds]
  | .function h => by simp only [Stmt.eraseIds, h.eraseIds]
  | .ret t h => by simp only [Stmt.eraseIds, t.eq, h.eraseIds]
  | .classDecl t h hs => by simp only [Stmt.eraseIds, t.eq, h.eraseIds, hs.eraseIds]

theorem Stmt.FunctionLike.eraseIds {d d' : FunctionDecl} :
    FunctionLike .anyIds d d' → eraseFunctionIds d' = eraseFunctionIds d
  | .mk t ts h => by simp only [Stmt.eraseFunctionIds, t.eq, Token.Like.eqAll ts, h.eraseAllIds]

theorem Stmt.MethodsLike.eraseIds {ds ds' : List FunctionDecl} :
    MethodsLike .anyIds ds ds' → eraseMethodIds ds' = eraseMethodIds ds
  | .nil => rfl
  | .cons h hs => by simp only [Stmt.eraseMethodIds, h.eraseIds, hs.eraseIds]

theorem Stmt.AllLike.eraseAllIds {ss ss' : List Stmt} :
    AllLike .anyIds ss ss' → Stmt.eraseAllIds ss' = Stmt.eraseAllIds ss
  | .nil => rfl
  | .cons h hs => by simp only [Stmt.eraseAllIds, h.eraseIds, hs.eraseAllIds]

end

section Mono

variable {N : Matching}

mutual

theorem Expr.Like.mono (within : M.Within N) {e e' : Expr} : e.Like M e' → e.Like N e'
  | .literal value => .literal value
  | .grouping h => .grouping (h.mono within)
  | .unary t h => .unary (t.mono within.lines) (h.mono within)
  | .binary h t h' => .binary (h.mono within) (t.mono within.lines) (h'.mono within)
  | .logical h t h' => .logical (h.mono within) (t.mono within.lines) (h'.mono within)
  | .var i t => .var (within.ids _ _ i) (t.mono within.lines)
  | .assign i t h => .assign (within.ids _ _ i) (t.mono within.lines) (h.mono within)
  | .call h t hs => .call (h.mono within) (t.mono within.lines) (hs.mono within)
  | .get h t => .get (h.mono within) (t.mono within.lines)
  | .set h t h' => .set (h.mono within) (t.mono within.lines) (h'.mono within)
  | .this i t => .this (within.ids _ _ i) (t.mono within.lines)
  | .super i t t' => .super (within.ids _ _ i) (t.mono within.lines) (t'.mono within.lines)

theorem Expr.AllLike.mono (within : M.Within N) {es es' : List Expr} :
    AllLike M es es' → AllLike N es es'
  | .nil => .nil
  | .cons h hs => .cons (h.mono within) (hs.mono within)

end

theorem Expr.OptionLike.mono (within : M.Within N) {e e' : Option Expr} :
    OptionLike M e e' → OptionLike N e e'
  | .none => .none
  | .some h => .some (h.mono within)

mutual

theorem Stmt.Like.mono (within : M.Within N) {s s' : Stmt} : s.Like M s' → s.Like N s'
  | .expression h => .expression (h.mono within)
  | .print h => .print (h.mono within)
  | .var t h => .var (t.mono within.lines) (h.mono within)
  | .block h => .block (h.mono within)
  | .branch c h => .branch (c.mono within) (h.mono within)
  | .branchElse c h h' => .branchElse (c.mono within) (h.mono within) (h'.mono within)
  | .loop c h => .loop (c.mono within) (h.mono within)
  | .function h => .function (h.mono within)
  | .ret t h => .ret (t.mono within.lines) (h.mono within)
  | .classDecl t h hs => .classDecl (t.mono within.lines) (h.mono within) (hs.mono within)

theorem Stmt.FunctionLike.mono (within : M.Within N) {d d' : FunctionDecl} :
    FunctionLike M d d' → FunctionLike N d d'
  | .mk t ts h =>
    .mk (t.mono within.lines) (ts.imp fun _ _ like => like.mono within.lines) (h.mono within)

theorem Stmt.MethodsLike.mono (within : M.Within N) {ds ds' : List FunctionDecl} :
    MethodsLike M ds ds' → MethodsLike N ds ds'
  | .nil => .nil
  | .cons h hs => .cons (h.mono within) (hs.mono within)

theorem Stmt.AllLike.mono (within : M.Within N) {ss ss' : List Stmt} :
    AllLike M ss ss' → AllLike N ss ss'
  | .nil => .nil
  | .cons h hs => .cons (h.mono within) (hs.mono within)

end

end Mono

end Lox
