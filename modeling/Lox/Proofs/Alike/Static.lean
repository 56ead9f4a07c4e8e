import Lox.Proofs.Alike.Trees
import Lox.Proofs.Resolution.Scopes
import Lox.Resolution

namespace Lox

variable {M : Matching}

/-- Whatever ids have the same distance on record match. -/
def Matching.Covers (M : Matching) (records records' : Records) : Prop :=
  ∀ id id' name name' d, records id name d → records' id' name' d → M.ids id id'

section Number

variable {records records' : Records}

theorem Matching.Covers.ids (covers : M.Covers records records') {Γ : Scopes} {id id' : Nat}
    {name name' : Token} (token : name.Like M name')
    (agrees : Agrees records (sitesOf Γ [(id, name)]))
    (agrees' : Agrees records' (sitesOf Γ [(id', name')])) : M.ids id id' := by
  have first : records id name (Γ.distance? name.lexeme) := agrees _ List.mem_cons_self
  have second : records' id' name' (Γ.distance? name'.lexeme) := agrees' _ List.mem_cons_self
  rw [token.lexeme] at second
  exact covers id id' name name' _ first second

theorem agrees_sitesOf_append {Γ : Scopes} {first second : List (Nat × Token)} :
    Agrees records (sitesOf Γ (first ++ second)) ↔
      Agrees records (sitesOf Γ first) ∧ Agrees records (sitesOf Γ second) := by
  rw [sitesOf, List.map_append, agrees_append]
  rfl

mutual

theorem Expr.Like.number (covers : M.Covers records records') {Γ : Scopes} {e e' : Expr} :
    e.Like (.unnumbered M) e' → Agrees records (sitesOf Γ e.occurrences) →
      Agrees records' (sitesOf Γ e'.occurrences) → e.Like M e'
  | .literal value, _, _ => .literal value
  | .grouping h, k, k' => .grouping (h.number covers k k')
  | .unary t h, k, k' => .unary t (h.number covers k k')
  | .binary h t h', k, k' =>
    have ⟨k₁, k₂⟩ := agrees_sitesOf_append.mp k
    have ⟨k₁', k₂'⟩ := agrees_sitesOf_append.mp k'
    .binary (h.number covers k₁ k₁') t (h'.number covers k₂ k₂')
  | .logical h t h', k, k' =>
    have ⟨k₁, k₂⟩ := agrees_sitesOf_append.mp k
    have ⟨k₁', k₂'⟩ := agrees_sitesOf_append.mp k'
    .logical (h.number covers k₁ k₁') t (h'.number covers k₂ k₂')
  | .var _ t, k, k' => .var (covers.ids t k k') t
  | .assign _ t h, k, k' =>
    have ⟨k₁, k₂⟩ := agrees_sitesOf_append.mp k
    have ⟨k₁', k₂'⟩ := agrees_sitesOf_append.mp k'
    .assign (covers.ids t k₂ k₂') t (h.number covers k₁ k₁')
  | .call h t hs, k, k' =>
    have ⟨k₁, k₂⟩ := agrees_sitesOf_append.mp k
    have ⟨k₁', k₂'⟩ := agrees_sitesOf_append.mp k'
    .call (h.number covers k₁ k₁') t (hs.number covers k₂ k₂')
  | .get h t, k, k' => .get (h.number covers k k') t
  | .set h t h', k, k' =>
    have ⟨k₁, k₂⟩ := agrees_sitesOf_append.mp k
    have ⟨k₁', k₂'⟩ := agrees_sitesOf_append.mp k'
    .set (h.number covers k₂ k₂') t (h'.number covers k₁ k₁')
  | .this _ t, k, k' => .this (covers.ids t k k') t
  | .super _ t t', k, k' => .super (covers.ids t k k') t t'

theorem Expr.AllLike.number (covers : M.Covers records records') {Γ : Scopes}
    {es es' : List Expr} : AllLike (.unnumbered M) es es' →
      Agrees records (sitesOf Γ (allOccurrences es)) →
      Agrees records' (sitesOf Γ (allOccurrences es')) → AllLike M es es'
  | .nil, _, _ => .nil
  | .cons h hs, k, k' =>
    have ⟨k₁, k₂⟩ := agrees_sitesOf_append.mp k
    have ⟨k₁', k₂'⟩ := agrees_sitesOf_append.mp k'
    .cons (h.number covers k₁ k₁') (hs.number covers k₂ k₂')

end

theorem Expr.OptionLike.number (covers : M.Covers records records') {Γ : Scopes}
    {e e' : Option Expr} : OptionLike (.unnumbered M) e e' →
      Agrees records (sitesOf Γ (optionOccurrences e)) →
      Agrees records' (sitesOf Γ (optionOccurrences e')) → OptionLike M e e'
  | .none, _, _ => .none
  | .some h, k, k' => .some (h.number covers k k')

theorem Stmt.Like.after {s s' : Stmt} (h : s.Like M s') (Γ : Scopes) : s'.after Γ = s.after Γ := by
  cases h with
  | var t _ => simp only [Stmt.after, t.lexeme]
  | function h => simp only [Stmt.after, h.name.lexeme]
  | classDecl t _ _ => simp only [Stmt.after, t.lexeme]
  | _ => rfl

theorem bodyScopes_of_like {params params' : List Token}
    (h : List.Forall₂ (Token.Like M) params params') (Γ : Scopes) :
    Stmt.bodyScopes params' Γ = Stmt.bodyScopes params Γ := by
  rw [Stmt.bodyScopes, lexemes_of_forall₂ h, Stmt.bodyScopes]

theorem Expr.OptionLike.classScopes {e e' : Option Expr} (h : OptionLike M e e') (Γ : Scopes) :
    Stmt.classScopes e' Γ = Stmt.classScopes e Γ := by
  cases h <;> rfl

mutual

theorem Stmt.Like.number (covers : M.Covers records records') {Γ : Scopes} {s s' : Stmt} :
    s.Like (.unnumbered M) s' → Agrees records (s.sites Γ) → Agrees records' (s'.sites Γ) →
      s.Like M s'
  | .expression h, k, k' => .expression (h.number covers k k')
  | .print h, k, k' => .print (h.number covers k k')
  | .var t h, k, k' => by
    simp only [Stmt.sites, t.lexeme] at k'
    exact .var t (h.number covers k k')
  | .block h, k, k' => .block (h.number covers k k')
  | .branch c h, k, k' =>
    have ⟨k₁, k₂⟩ := agrees_append.mp k
    have ⟨k₁', k₂'⟩ := agrees_append.mp k'
    .branch (c.number covers k₁ k₁') (h.number covers k₂ k₂')
  | .branchElse c h h', k, k' =>
    have ⟨k₁, k₂⟩ := agrees_append.mp k
    have ⟨k₁', k₂'⟩ := agrees_append.mp k'
    have ⟨l, r⟩ := agrees_append.mp k₂
    have ⟨l', r'⟩ := agrees_append.mp k₂'
    .branchElse (c.number covers k₁ k₁') (h.number covers l l') (h'.number covers r r')
  | .loop c h, k, k' =>
    have ⟨k₁, k₂⟩ := agrees_append.mp k
    have ⟨k₁', k₂'⟩ := agrees_append.mp k'
    .loop (c.number covers k₁ k₁') (h.number covers k₂ k₂')
  | .function h, k, k' => .function (h.number covers k (h.name.lexeme ▸ k'))
  | .ret t h, k, k' => .ret t (h.number covers k k')
  | .classDecl t h hs, k, k' => by
    -- The two classes put the same scopes around their methods.
    simp only [Stmt.sites, t.lexeme, h.classScopes] at k'
    obtain ⟨k₁, k₂⟩ := agrees_append.mp k
    obtain ⟨k₁', k₂'⟩ := agrees_append.mp k'
    exact .classDecl t (h.number covers k₁ k₁') (hs.number covers k₂ k₂')

theorem Stmt.FunctionLike.number (covers : M.Covers records records') {Γ : Scopes}
    {d d' : FunctionDecl} : FunctionLike (.unnumbered M) d d' → Agrees records (functionSites Γ d) →
      Agrees records' (functionSites Γ d') → FunctionLike M d d'
  | .mk t ts h, k, k' =>
    have k'' := bodyScopes_of_like ts Γ ▸ k'
    .mk t ts (h.number covers k k'')

theorem Stmt.MethodsLike.number (covers : M.Covers records records') {Γ : Scopes}
    {ds ds' : List FunctionDecl} : MethodsLike (.unnumbered M) ds ds' →
      Agrees records (methodSites Γ ds) → Agrees records' (methodSites Γ ds') → MethodsLike M ds ds'
  | .nil, _, _ => .nil
  | .cons h hs, k, k' =>
    have ⟨k₁, k₂⟩ := agrees_append.mp k
    have ⟨k₁', k₂'⟩ := agrees_append.mp k'
    .cons (h.number covers k₁ k₁') (hs.number covers k₂ k₂')

theorem Stmt.AllLike.number (covers : M.Covers records records') {Γ : Scopes}
    {ss ss' : List Stmt} : AllLike (.unnumbered M) ss ss' → Agrees records (allSites Γ ss) →
      Agrees records' (allSites Γ ss') → AllLike M ss ss'
  | .nil, _, _ => .nil
  | .cons h hs, k, k' =>
    have ⟨k₁, k₂⟩ := agrees_append.mp k
    have ⟨k₁', k₂'⟩ := agrees_append.mp k'
    .cons (h.number covers k₁ k₁') (hs.number covers k₂ (h.after Γ ▸ k₂'))

end

end Number

structure ResolveError.Like (lines : Lines) (e e' : ResolveError) : Prop where
  cause : e'.cause = e.cause
  token : e.token.Like lines e'.token

namespace Resolution

structure Like (M : Matching) (r r' : Resolution) : Prop where
  scopes : r'.scopes = r.scopes
  errors : List.Forall₂ (ResolveError.Like M) r.errors r'.errors

namespace Like

variable {r r' : Resolution} {name name' : Token}

theorem report (h : r.Like M r') (cause : ResolveError.Cause) (token : name.Like M name') :
    (r.report cause name).Like M (r'.report cause name') :=
  ⟨h.scopes, List.rel_append h.errors (.cons ⟨rfl, token⟩ .nil)⟩

theorem reportIf (h : r.Like M r') (violated : Bool) (cause : ResolveError.Cause)
    (token : name.Like M name') :
    (r.reportIf violated cause name).Like M (r'.reportIf violated cause name') := by
  cases violated with
  | false => exact h
  | true => exact h.report cause token

theorem enter (h : r.Like M r') : r.enter.Like M r'.enter :=
  ⟨congrArg (List.cons Table.empty) h.scopes, h.errors⟩

theorem leave (h : r.Like M r') : r.leave.Like M r'.leave := ⟨congrArg List.tail h.scopes, h.errors⟩

theorem mark (h : r.Like M r') (name : String) (ready : Bool) :
    (r.mark name ready).Like M (r'.mark name ready) := by
  simp only [Resolution.mark, h.scopes]
  cases r.scopes with
  | nil => exact h
  | cons scope outer => exact ⟨rfl, h.errors⟩

theorem declare (h : r.Like M r') (token : name.Like M name') :
    (r.declare name).Like M (r'.declare name') := by
  have same : r'.isDeclared name.lexeme = r.isDeclared name.lexeme := by
    simp only [isDeclared, h.scopes]
  simp only [Resolution.declare, token.lexeme, same]
  split
  · exact h.report _ token
  · exact h.mark _ _

theorem define (h : r.Like M r') (name : String) : (r.define name).Like M (r'.define name) :=
  h.mark name true

theorem declareAndDefine (h : r.Like M r') (token : name.Like M name') :
    (r.declareAndDefine name).Like M (r'.declareAndDefine name') := by
  simp only [Resolution.declareAndDefine, token.lexeme]
  exact (h.declare token).define _

theorem occurrence (h : r.Like M r') (id id' : Nat) (token : name.Like M name') :
    (r.occurrence id name).Like M (r'.occurrence id' name') := by
  have same : r'.distance? name'.lexeme = r.distance? name.lexeme := by
    simp only [distance?, h.scopes, token.lexeme]
  simp only [Resolution.occurrence, same]
  split <;> exact ⟨h.scopes, h.errors⟩

theorem read (h : r.Like M r') (enclosing : EnclosingClass) (id id' : Nat)
    (token : name.Like M name') :
    ((Expr.var id name).resolve enclosing r).Like M
      ((Expr.var id' name').resolve enclosing r') := by
  have same : r'.isPending name.lexeme = r.isPending name.lexeme := by
    simp only [isPending, h.scopes]
  simp only [Expr.resolve, token.lexeme, same]
  exact (h.reportIf _ _ token).occurrence id id' token

theorem this (h : r.Like M r') (enclosing : EnclosingClass) (id id' : Nat)
    (token : name.Like M name') :
    (Expr.resolveThis enclosing id name r).Like M (Expr.resolveThis enclosing id' name' r') := by
  cases enclosing with
  | none => exact h.report _ token
  | _ => exact h.occurrence id id' token

theorem super (h : r.Like M r') (enclosing : EnclosingClass) (id id' : Nat)
    (token : name.Like M name') :
    (Expr.resolveSuper enclosing id name r).Like M (Expr.resolveSuper enclosing id' name' r') := by
  cases enclosing with
  | none => exact h.report _ token
  | plain => exact h.report _ token
  | subclass => exact h.occurrence id id' token

theorem params {params params' : List Token} (h : r.Like M r')
    (tokens : List.Forall₂ (Token.Like M) params params') :
    (params.foldl Resolution.declareAndDefine r).Like M
      (params'.foldl Resolution.declareAndDefine r') := by
  induction tokens generalizing r r' with
  | nil => exact h
  | cons first _ ih => exact ih (h.declareAndDefine first)

end Like

end Resolution

mutual

theorem Expr.Like.resolve {enclosing : EnclosingClass} {e e' : Expr} {r r' : Resolution} :
    e.Like M e' → r.Like M r' → (e.resolve enclosing r).Like M (e'.resolve enclosing r')
  | .literal _, k => k
  | .grouping h, k => h.resolve k
  | .unary _ h, k => h.resolve k
  | .binary h _ h', k => h'.resolve (h.resolve k)
  | .logical h _ h', k => h'.resolve (h.resolve k)
  | .var _ t, k => k.read enclosing _ _ t
  | .assign _ t h, k => (h.resolve k).occurrence _ _ t
  | .call h _ hs, k => hs.resolve (h.resolve k)
  | .get h _, k => h.resolve k
  | .set h _ h', k => h.resolve (h'.resolve k)
  | .this _ t, k => k.this enclosing _ _ t
  | .super _ t _, k => k.super enclosing _ _ t

theorem Expr.AllLike.resolve {enclosing : EnclosingClass} {es es' : List Expr}
    {r r' : Resolution} : AllLike M es es' → r.Like M r' →
      (resolveList enclosing es r).Like M (resolveList enclosing es' r')
  | .nil, k => k
  | .cons h hs, k => hs.resolve (h.resolve k)

end

theorem Expr.OptionLike.resolve {enclosing : EnclosingClass} {e e' : Option Expr}
    {r r' : Resolution} (h : OptionLike M e e') (k : r.Like M r') :
    (resolveOption enclosing e r).Like M (resolveOption enclosing e' r') := by
  cases h with
  | none => exact k
  | some h => exact h.resolve k

namespace Stmt

variable {name name' : Token} {superclass superclass' : Option Expr} {r r' : Resolution}

theorem inheritsItself_of_like (token : name.Like M name') {e e' : Expr} (h : e.Like M e') :
    inheritsItself name' e' = inheritsItself name e := by
  cases h with
  | var _ t => simp only [inheritsItself, t.lexeme, token.lexeme]
  | _ => rfl

theorem superclassName_like (token : name.Like M name') {e e' : Expr} (h : e.Like M e') :
    (superclassName name e).Like M (superclassName name' e') := by
  cases h with
  | var _ t => exact t
  | _ => exact token

theorem enterClass_like (token : name.Like M name')
    (inherited : Expr.OptionLike M superclass superclass') (k : r.Like M r') :
    (enterClass name superclass r).Like M (enterClass name' superclass' r') := by
  cases inherited with
  | none => exact k.enter.define "this"
  | @some e e' h =>
    simp only [enterClass, inheritsItself_of_like token h]
    have named := k.reportIf (inheritsItself name e) .inheritsItself (superclassName_like token h)
    exact ((h.resolve named).enter.define "super").enter.define "this"

theorem leaveClass_like (inherited : Expr.OptionLike M superclass superclass') (k : r.Like M r') :
    (leaveClass superclass r).Like M (leaveClass superclass' r') := by
  cases inherited with
  | none => exact k.leave
  | some _ => exact k.leave.leave

theorem enclosedBy_like (inherited : Expr.OptionLike M superclass superclass') :
    enclosedBy superclass' = enclosedBy superclass := by
  cases inherited <;> rfl

end Stmt

theorem Expr.OptionLike.isSome {e e' : Option Expr} (h : OptionLike M e e') :
    e'.isSome = e.isSome := by
  cases h <;> rfl

mutual

theorem Stmt.Like.resolve {enclosing : EnclosingClass} {kind : EnclosingFunction} {s s' : Stmt}
    {r r' : Resolution} : s.Like M s' → r.Like M r' →
      (s.resolve enclosing kind r).Like M (s'.resolve enclosing kind r')
  | .expression h, k | .print h, k => h.resolve k
  | .var t h, k => by
    simp only [Stmt.resolve, t.lexeme]
    exact (h.resolve (k.declare t)).define _
  | .block h, k => (h.resolve k.enter).leave
  | .branch c h, k => h.resolve (c.resolve k)
  | .branchElse c h h', k => h'.resolve (h.resolve (c.resolve k))
  | .loop c h, k => h.resolve (c.resolve k)
  | .function h, k => h.resolve (k.declareAndDefine h.name)
  | .ret t h, k => by
    simp only [Stmt.resolve, h.isSome]
    exact h.resolve ((k.reportIf _ _ t).reportIf _ _ t)
  | .classDecl t h hs, k => by
    simp only [Stmt.resolve, enclosedBy_like h]
    exact leaveClass_like h (hs.resolve (enterClass_like t h (k.declareAndDefine t)))

theorem Stmt.FunctionLike.resolve {enclosing : EnclosingClass} {kind : EnclosingFunction}
    {d d' : FunctionDecl} {r r' : Resolution} : FunctionLike M d d' → r.Like M r' →
      (resolveFunction enclosing kind d r).Like M (resolveFunction enclosing kind d' r')
  | .mk _ ts h, k => (h.resolve (k.enter.params ts)).leave

theorem Stmt.MethodsLike.resolve {enclosing : EnclosingClass} {ds ds' : List FunctionDecl}
    {r r' : Resolution} : MethodsLike M ds ds' → r.Like M r' →
      (resolveMethods enclosing ds r).Like M (resolveMethods enclosing ds' r')
  | .nil, k => k
  | .cons h hs, k => by
    simp only [resolveMethods, EnclosingFunction.ofMethod, h.name.lexeme]
    exact hs.resolve (h.resolve k)

theorem Stmt.AllLike.resolve {enclosing : EnclosingClass} {kind : EnclosingFunction}
    {ss ss' : List Stmt} {r r' : Resolution} : AllLike M ss ss' → r.Like M r' →
      (resolveList enclosing kind ss r).Like M (resolveList enclosing kind ss' r')
  | .nil, k => k
  | .cons h hs, k => hs.resolve (h.resolve k)

end

theorem Stmt.AllLike.resolveErrors {ss ss' : List Stmt} (h : AllLike M ss ss') :
    List.Forall₂ (ResolveError.Like M) (Lox.resolve ss).errors (Lox.resolve ss').errors :=
  (h.resolve ⟨rfl, .nil⟩).errors

end Lox
