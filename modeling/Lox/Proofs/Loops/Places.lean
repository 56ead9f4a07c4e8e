import Lox.Proofs.Alike.Trees
import Lox.Proofs.Loops.Copies
import Lox.Proofs.Resolution.Sound

namespace Lox

open Shift

/-- The scopes around the first place are those around the second and some empty ones. -/
inductive Beside : Shift → Scopes → Scopes → Prop where
  | same (Γ : Scopes) : Beside Eq Γ Γ
  | enter {R : Shift} {Γ Γ' : Scopes} (names : List String) (outer : Beside R Γ Γ') :
    Beside (Enter R) (names :: Γ) (names :: Γ')
  | detour {R : Shift} {Γ Γ' : Scopes} (outer : Beside R Γ Γ') : Beside (Detour R) ([] :: Γ) Γ'

namespace Beside

variable {R : Shift} {Γ Γ' : Scopes}

theorem distance? (h : Beside R Γ Γ') (name : String) :
    Option.Rel R (Γ.distance? name) (Γ'.distance? name) := by
  induction h with
  | same Γ => exact rel_self (fun _ => rfl) _
  | @enter R Γ Γ' names _ ih =>
    rw [Scopes.distance?_cons, Scopes.distance?_cons]
    by_cases member : name ∈ names
    · rw [if_pos member, if_pos member]
      exact .some .here
    · rw [if_neg member, if_neg member]
      generalize Γ.distance? name = found at ih ⊢
      generalize Γ'.distance? name = found' at ih ⊢
      cases ih with
      | none => exact .none
      | some further => exact .some (.out further)
  | @detour R Γ Γ' _ ih =>
    rw [Scopes.distance?_cons, if_neg List.not_mem_nil]
    generalize Γ.distance? name = found at ih ⊢
    generalize Γ'.distance? name = found' at ih ⊢
    cases ih with
    | none => exact .none
    | some further => exact .some (.out further)

theorem level (h : Beside R Γ Γ') {d : Nat} (related : R 0 d) : d = 0 := by
  cases h with
  | same => exact related.symm
  | enter =>
    cases related
    rfl
  | detour => cases related

theorem inner (h : Beside R Γ Γ') {name : String} {d d' : Nat} (found : Γ.distance? name = some d)
    (out : R (d + 1) d') : ∃ e, d' = e + 1 ∧ R d e := by
  induction h generalizing d d' with
  | same Γ => exact ⟨d, out.symm, rfl⟩
  | @enter R Γ Γ' names outer ih =>
    rw [Scopes.distance?_cons] at found
    cases out with
    | @out _ e further =>
      by_cases member : name ∈ names
      · rw [if_pos member] at found
        cases found
        obtain rfl : e = 0 := outer.level further
        exact ⟨0, rfl, .here⟩
      · rw [if_neg member] at found
        obtain ⟨k, found', rfl⟩ := Option.map_eq_some_iff.mp found
        obtain ⟨e, rfl, inside⟩ := ih found' further
        exact ⟨e + 1, rfl, .out inside⟩
  | @detour R Γ Γ' outer ih =>
    rw [Scopes.distance?_cons, if_neg List.not_mem_nil] at found
    obtain ⟨k, found', rfl⟩ := Option.map_eq_some_iff.mp found
    cases out with
    | out further =>
      obtain ⟨e, rfl, inside⟩ := ih found' further
      exact ⟨e, rfl, .out inside⟩

theorem declare (h : Beside R Γ Γ') (level : R 0 0) (name : String) :
    Beside R (Γ.declare name) (Γ'.declare name) := by
  cases h with
  | same => exact .same _
  | enter names outer => exact .enter (name :: names) outer
  | detour => cases level

theorem after (h : Beside R Γ Γ') (level : R 0 0) {s s' : Stmt} (like : s.Like .anyIds s') :
    Beside R (s.after Γ) (s'.after Γ') := by
  cases like with
  | var token =>
    rw [token.eq]
    exact h.declare level _
  | function inside =>
    simp only [Stmt.after, inside.name.eq]
    exact h.declare level _
  | classDecl token =>
    rw [token.eq]
    exact h.declare level _
  | _ => exact h

end Beside

def Locals.records (locals : Locals) : Records := fun id _ distance => locals[id]? = distance

variable {L : Distances} {R : Shift} {Γ Γ' : Scopes}

theorem Beside.onRecord (h : Beside R Γ Γ') {id id' : Nat} {name : Token}
    (first : L.first[id]? = Γ.distance? name.lexeme)
    (second : L.second[id']? = Γ'.distance? name.lexeme) :
    Option.Rel R L.first[id]? L.second[id']? := by
  rw [first, second]
  exact h.distance? name.lexeme

namespace Expr.Like

mutual

theorem copies (beside : Beside R Γ Γ') {pending : Option String} : {e e' : Expr} →
    e.Like .anyIds e' → Agrees L.first.records (sitesOf Γ e.occurrences) →
    e.Resolved L.first.records Γ pending → Agrees L.second.records (sitesOf Γ' e'.occurrences) →
    e.Copies L R e'
  | _, _, .literal value, _, _, _ => .literal value
  | _, _, .grouping inside, known, resolved, known' =>
    .grouping (copies beside inside known resolved known')
  | _, _, .unary token inside, known, resolved, known' => by
    rw [token.eq]
    exact .unary _ (copies beside inside known resolved known')
  | _, _, .binary first token second, known, resolved, known' => by
    rw [token.eq]
    simp only [occurrences, sitesOf_append, agrees_append] at known known'
    obtain ⟨left, right⟩ := known
    obtain ⟨left', right'⟩ := known'
    exact .binary _ (copies beside first left resolved.1 left')
      (copies beside second right resolved.2 right')
  | _, _, .logical first token second, known, resolved, known' => by
    rw [token.eq]
    simp only [occurrences, sitesOf_append, agrees_append] at known known'
    obtain ⟨left, right⟩ := known
    obtain ⟨left', right'⟩ := known'
    exact .logical _ (copies beside first left resolved.1 left')
      (copies beside second right resolved.2 right')
  | _, _, .var _ token, known, _, known' => by
    rw [token.eq] at known' ⊢
    exact .var _ (beside.onRecord (known _ List.mem_cons_self) (known' _ List.mem_cons_self))
  | _, _, .assign _ token inside, known, resolved, known' => by
    rw [token.eq] at known' ⊢
    simp only [occurrences, sitesOf_append, agrees_append] at known known'
    obtain ⟨value, target⟩ := known
    obtain ⟨value', target'⟩ := known'
    exact .assign _ (beside.onRecord (target _ List.mem_cons_self) (target' _ List.mem_cons_self))
      (copies beside inside value resolved.1 value')
  | _, _, .call first token rest, known, resolved, known' => by
    rw [token.eq]
    simp only [occurrences, sitesOf_append, agrees_append] at known known'
    obtain ⟨callee, others⟩ := known
    obtain ⟨callee', others'⟩ := known'
    exact .call _ (copies beside first callee resolved.1 callee')
      (allCopies beside rest others resolved.2 others')
  | _, _, .get first token, known, resolved, known' => by
    rw [token.eq]
    exact .get _ (copies beside first known resolved known')
  | _, _, .set first token second, known, resolved, known' => by
    rw [token.eq]
    simp only [occurrences, sitesOf_append, agrees_append] at known known'
    obtain ⟨value, object⟩ := known
    obtain ⟨value', object'⟩ := known'
    exact .set _ (copies beside first object resolved.1 object')
      (copies beside second value resolved.2 value')
  | _, _, .this _ token, known, _, known' => by
    rw [token.eq] at known' ⊢
    exact .this _ (beside.onRecord (known _ List.mem_cons_self) (known' _ List.mem_cons_self))
  | .super id _ _, .super id' _ _, .super _ token name, known, ⟨_, _, d, _, receiver, distance⟩,
      known' => by
    rw [name.eq]
    rw [token.eq] at known' ⊢
    have related := beside.onRecord (known _ List.mem_cons_self) (known' _ List.mem_cons_self)
    refine .super _ _ ?_
    have distance : L.first[id]? = some (d + 1) := distance
    rw [distance] at related ⊢
    generalize L.second[id']? = distance' at related ⊢
    cases related with
    | some out =>
      obtain ⟨e, rfl, inner⟩ := beside.inner receiver out
      exact .some ⟨out, inner⟩

theorem allCopies (beside : Beside R Γ Γ') {pending : Option String} : {es es' : List Expr} →
    AllLike .anyIds es es' → Agrees L.first.records (sitesOf Γ (allOccurrences es)) →
    AllResolved L.first.records Γ pending es →
    Agrees L.second.records (sitesOf Γ' (allOccurrences es')) → AllCopies L R es es'
  | _, _, .nil, _, _, _ => .nil
  | _, _, .cons first others, known, resolved, known' => by
    simp only [allOccurrences, sitesOf_append, agrees_append] at known known'
    obtain ⟨here, rest⟩ := known
    obtain ⟨here', rest'⟩ := known'
    exact .cons (copies beside first here resolved.1 here')
      (allCopies beside others rest resolved.2 rest')

end

end Expr.Like

theorem Expr.OptionLike.copies (beside : Beside R Γ Γ') {pending : Option String}
    {e e' : Option Expr} (like : OptionLike .anyIds e e')
    (known : Agrees L.first.records (sitesOf Γ (optionOccurrences e)))
    (resolved : ∀ inner ∈ e, inner.Resolved L.first.records Γ pending)
    (known' : Agrees L.second.records (sitesOf Γ' (optionOccurrences e'))) :
    OptionCopies L R e e' := by
  cases like with
  | none => exact .none
  | some inside => exact .some (inside.copies beside known (resolved _ rfl) known')

namespace Stmt

mutual

theorem FunctionLike.copies {R : Shift} {Γ Γ' : Scopes} (beside : Beside R Γ Γ') :
    {d d' : FunctionDecl} → FunctionLike .anyIds d d' → Agrees L.first.records (functionSites Γ d) →
    FunctionResolved L.first.records Γ d → Agrees L.second.records (functionSites Γ' d') →
    FunctionCopies L R d d'
  | _, _, .mk token tokens inside, known, resolved, known' => by
    obtain rfl := token.eq
    obtain rfl := Token.Like.eqAll tokens
    exact .mk _ _ (inside.copies (beside.enter _) .here known resolved.2.2 known')

theorem MethodsLike.copies {R : Shift} {Γ Γ' : Scopes} (beside : Beside R Γ Γ') :
    {ds ds' : List FunctionDecl} → MethodsLike .anyIds ds ds' →
    Agrees L.first.records (methodSites Γ ds) → MethodsResolved L.first.records Γ ds →
    Agrees L.second.records (methodSites Γ' ds') → MethodsCopies L R ds ds'
  | _, _, .nil, _, _, _ => .nil
  | _, _, .cons first others, known, resolved, known' => by
    simp only [methodSites, agrees_append] at known known'
    exact .cons (first.copies beside known.1 resolved.1 known'.1)
      (others.copies beside known.2 resolved.2 known'.2)

theorem Like.copies {R : Shift} {Γ Γ' : Scopes} (beside : Beside R Γ Γ') :
    {s s' : Stmt} → s.Like .anyIds s' → (R 0 0 ∨ s.isStatement = true) →
    Agrees L.first.records (s.sites Γ) → s.Resolved L.first.records Γ →
    Agrees L.second.records (s'.sites Γ') → s.Copies L R s'
  | _, _, .expression inside, _, known, resolved, known' =>
    .expression (inside.copies beside known resolved known')
  | _, _, .print inside, _, known, resolved, known' =>
    .print (inside.copies beside known resolved known')
  | _, _, .var token inside, .inl level, known, resolved, known' => by
    rw [token.eq] at known' ⊢
    exact .var _ level (inside.copies (beside.declare level _) known resolved.2.2 known')
  | _, _, .block inside, _, known, resolved, known' =>
    .block (inside.copies (beside.enter []) .here known resolved known')
  | _, _, .branch test first, _, known, resolved, known' => by
    simp only [sites, agrees_append] at known known'
    exact .branch (test.copies beside known.1 resolved.1 known'.1)
      (first.copies beside (.inr resolved.2.1) known.2 resolved.2.2 known'.2)
  | _, _, .branchElse test first second, _, known, resolved, known' => by
    simp only [sites, agrees_append] at known known'
    obtain ⟨condition, thenBranch, elseBranch⟩ := resolved
    exact .branchElse (test.copies beside known.1 condition known'.1)
      (first.copies beside (.inr thenBranch.1) known.2.1 thenBranch.2 known'.2.1)
      (second.copies beside (.inr elseBranch.1) known.2.2 elseBranch.2 known'.2.2)
  | _, _, .loop test inside, _, known, resolved, known' => by
    simp only [sites, agrees_append] at known known'
    exact .loop (test.copies beside known.1 resolved.1 known'.1)
      (inside.copies beside (.inr resolved.2.1) known.2 resolved.2.2 known'.2)
  | _, _, .function inside, .inl level, known, resolved, known' => by
    simp only [sites, inside.name.eq] at known'
    exact .function level (inside.copies (beside.declare level _) known resolved.2.2 known')
  | _, _, .ret token inside, _, known, resolved, known' => by
    rw [token.eq]
    exact .ret _ (inside.copies beside known resolved known')
  | .classDecl name _ _, _, .classDecl token inherited members, .inl level, known, resolved,
      known' => by
    rw [token.eq] at known' ⊢
    simp only [sites, agrees_append] at known known'
    obtain ⟨-, -, superclass, methods⟩ := resolved
    have declared := beside.declare level name.lexeme
    cases inherited with
    | none => exact .classDecl _ level (members.copies (declared.enter _) known.2 methods known'.2)
    | some inside =>
      exact .subclassDecl _ level (inside.copies declared known.1 (superclass _ rfl) known'.1)
        (members.copies ((declared.enter _).enter _) known.2 methods known'.2)

theorem AllLike.copies {R : Shift} {Γ Γ' : Scopes} (beside : Beside R Γ Γ') (level : R 0 0) :
    {ss ss' : List Stmt} → AllLike .anyIds ss ss' → Agrees L.first.records (allSites Γ ss) →
    AllResolved L.first.records Γ ss → Agrees L.second.records (allSites Γ' ss') →
    AllCopies L R ss ss'
  | _, _, .nil, _, _, _ => .nil
  | _, _, .cons first others, known, resolved, known' => by
    simp only [allSites, agrees_append] at known known'
    exact .cons (first.copies beside (.inl level) known.1 resolved.1 known'.1)
      (others.copies (beside.after level first) level known.2 resolved.2 known'.2)

end

end Stmt

end Lox
