import Lox.Proofs.Loops.Direct
import Lox.Proofs.Loops.Places
import Lox.Proofs.Session.Accepted

namespace Lox

theorem Stmt.sites_ids (s : Stmt) (Γ : Scopes) : (s.sites Γ).map Site.id = s.ids := by
  rw [Stmt.ids, idsOf, ← s.sites_occurrences Γ, List.map_map]
  rfl

theorem Stmt.optionLike_of_eraseIds {s s' : Option Stmt}
    (same : s'.map Stmt.eraseIds = s.map Stmt.eraseIds) : Option.Rel (Stmt.Like .anyIds) s s' := by
  cases s with
  | none =>
    cases s' with
    | none => exact .none
    | some _ => cases same
  | some s =>
    cases s' with
    | none => cases same
    | some s' => exact .some (s.like_eraseIds.join (Option.some.inj same ▸ s'.like_eraseIds))

namespace ForLoop

variable {loop copy : ForLoop} {Γ : Scopes}

def headerScopes (loop : ForLoop) (Γ : Scopes) : Scopes :=
  match loop.initializer with
  | none => Γ
  | some first => first.after ([] :: Γ)

/-- The occurrences of names in the loop as it is written. The condition, the increment and the body
are all directly in the scope of what the header declares. -/
def sites (loop : ForLoop) (Γ : Scopes) : List Site :=
  loop.initializer.toList.flatMap (Stmt.sites ([] :: Γ)) ++
    (sitesOf (loop.headerScopes Γ) (Expr.optionOccurrences loop.condition) ++
      (sitesOf (loop.headerScopes Γ) (Expr.optionOccurrences loop.increment) ++
        loop.body.sites (loop.headerScopes Γ)))

structure IsCopy (loop copy : ForLoop) : Prop where
  initializer : copy.initializer.map Stmt.eraseIds = loop.initializer.map Stmt.eraseIds
  condition : SameOption loop.condition copy.condition
  increment : SameOption loop.increment copy.increment
  body : loop.body.Same copy.body

/-- In the tree there is a block around each round that ends with an increment. -/
def roundScopes (loop : ForLoop) (Γ : Scopes) : Scopes :=
  match loop.increment with
  | none => Γ
  | some _ => [] :: Γ

structure InPlace (records : Records) (loop : ForLoop) (Γ : Scopes) : Prop where
  initializer : ∀ first ∈ loop.initializer,
    Agrees records (first.sites ([] :: Γ)) ∧ first.Resolved records ([] :: Γ)
  condition : Agrees records
      (sitesOf (loop.headerScopes Γ) (Expr.optionOccurrences loop.condition)) ∧
    ∀ e ∈ loop.condition, e.Resolved records (loop.headerScopes Γ) none
  increment : Agrees records
      (sitesOf ([] :: loop.headerScopes Γ) (Expr.optionOccurrences loop.increment)) ∧
    ∀ e ∈ loop.increment, e.Resolved records ([] :: loop.headerScopes Γ) none
  body : Agrees records (loop.body.sites (loop.roundScopes (loop.headerScopes Γ))) ∧
    loop.body.Resolved records (loop.roundScopes (loop.headerScopes Γ))

section Places

variable {records : Records}

theorem forall_mem_none {α : Type} {p : α → Prop} : ∀ a ∈ (none : Option α), p a := by
  rintro _ ⟨⟩

theorem roundTree_inPlace (known : Agrees records (loop.roundTree.sites Γ))
    (resolved : loop.roundTree.Resolved records Γ) :
    (Agrees records (sitesOf ([] :: Γ) (Expr.optionOccurrences loop.increment)) ∧
        ∀ e ∈ loop.increment, e.Resolved records ([] :: Γ) none) ∧
      Agrees records (loop.body.sites (loop.roundScopes Γ)) ∧
        loop.body.Resolved records (loop.roundScopes Γ) := by
  unfold roundTree at known resolved
  unfold roundScopes
  generalize loop.increment = step at known resolved ⊢
  cases step with
  | none => exact ⟨⟨List.forall_mem_nil _, forall_mem_none⟩, known, resolved⟩
  | some e =>
    have unchanged := Stmt.after_eq_of_isStatement loop.isStatement ([] :: Γ)
    simp only [Stmt.sites, Stmt.allSites, agrees_append, unchanged] at known
    simp only [Stmt.Resolved, Stmt.AllResolved, unchanged] at resolved
    refine ⟨⟨known.2.1, fun inner found => ?_⟩, known.1, resolved.1⟩
    cases found
    exact resolved.2.1

theorem roundsTree_inPlace (known : Agrees records (loop.roundsTree.sites Γ))
    (resolved : loop.roundsTree.Resolved records Γ) :
    (Agrees records (sitesOf Γ (Expr.optionOccurrences loop.condition)) ∧
        ∀ e ∈ loop.condition, e.Resolved records Γ none) ∧
      Agrees records (loop.roundTree.sites Γ) ∧ loop.roundTree.Resolved records Γ := by
  unfold roundsTree at known resolved
  simp only [Stmt.sites, agrees_append] at known
  generalize loop.condition = condition at known resolved ⊢
  cases condition with
  | none => exact ⟨⟨List.forall_mem_nil _, forall_mem_none⟩, known.2, resolved.2.2⟩
  | some e =>
    refine ⟨⟨known.1, fun inner found => ?_⟩, known.2, resolved.2.2⟩
    cases found
    exact resolved.1

theorem tree_inPlace (known : Agrees records (loop.tree.sites Γ))
    (resolved : loop.tree.Resolved records Γ) : InPlace records loop Γ := by
  rw [tree_eq] at known resolved
  have parts : (∀ first ∈ loop.initializer,
        Agrees records (first.sites ([] :: Γ)) ∧ first.Resolved records ([] :: Γ)) ∧
      Agrees records (loop.roundsTree.sites (loop.headerScopes Γ)) ∧
        loop.roundsTree.Resolved records (loop.headerScopes Γ) := by
    unfold headerScopes
    unfold headed at known resolved
    generalize loop.initializer = initializer at known resolved ⊢
    cases initializer with
    | none => exact ⟨forall_mem_none, known, resolved⟩
    | some first =>
      simp only [Stmt.sites, Stmt.allSites, agrees_append] at known
      simp only [Stmt.Resolved, Stmt.AllResolved] at resolved
      refine ⟨fun inner found => ?_, known.2.1, resolved.2.1⟩
      cases found
      exact ⟨known.1, resolved.1⟩
  obtain ⟨initializer, knownRounds, rounds⟩ := parts
  obtain ⟨condition, knownRound, round⟩ := roundsTree_inPlace knownRounds rounds
  obtain ⟨increment, body⟩ := roundTree_inPlace knownRound round
  exact ⟨initializer, condition, increment, body⟩

end Places

section Copies

variable {L : Distances}

theorem IsCopy.beside (h : loop.IsCopy copy) (Γ : Scopes) :
    Beside (loop.headerShift Eq) (loop.headerScopes Γ) (copy.headerScopes Γ) := by
  have alike := Stmt.optionLike_of_eraseIds h.initializer
  unfold headerShift headerScopes
  generalize loop.initializer = first at alike ⊢
  generalize copy.initializer = first' at alike ⊢
  cases alike with
  | none => exact .same Γ
  | some like => exact ((Beside.same Γ).enter []).after .here like

theorem SameOption.copies {R : Shift} {Γ Γ' : Scopes} {e e' : Option Expr} (beside : Beside R Γ Γ')
    (same : SameOption e e')
    (known : Agrees L.first.records (sitesOf Γ (Expr.optionOccurrences e)) ∧
      ∀ inner ∈ e, inner.Resolved L.first.records Γ none)
    (known' : Agrees L.second.records (sitesOf Γ' (Expr.optionOccurrences e'))) :
    Expr.OptionCopies L R e e' := by
  have like := (Expr.optionLike_erase e).join (same ▸ Expr.optionLike_erase e')
  exact like.copies beside known.1 known.2 known'

/-- A loop and a copy of it each have their distances on record, one for the places in the tree and
the other for those in the loop as it is written. -/
theorem IsCopy.parts (h : loop.IsCopy copy) (place : InPlace L.first.records loop Γ)
    (lexical : Agrees L.second.records (copy.sites Γ)) : PartCopies L Eq loop copy := by
  simp only [sites, agrees_append] at lexical
  obtain ⟨initializer, condition, increment, body⟩ := lexical
  have header := h.beside Γ
  refine ⟨?_, SameOption.copies header h.condition place.condition condition,
    SameOption.copies header.detour h.increment place.increment increment, ?_⟩
  · have alike := Stmt.optionLike_of_eraseIds h.initializer
    have accepted := place.initializer
    generalize loop.initializer = first at alike accepted ⊢
    generalize copy.initializer = first' at alike initializer ⊢
    cases alike with
    | none => exact .none
    | some like =>
      obtain ⟨known, resolved⟩ := accepted _ rfl
      rw [Option.toList_some, List.flatMap_singleton] at initializer
      exact .some (like.copies ((Beside.same Γ).enter []) (.inl .here) known resolved initializer)
  · have like := loop.body.like_eraseIds.join (h.body ▸ copy.body.like_eraseIds)
    have round : Beside (loop.roundShift (loop.headerShift Eq))
        (loop.roundScopes (loop.headerScopes Γ)) (copy.headerScopes Γ) := by
      unfold roundShift roundScopes
      cases loop.increment with
      | none => exact header
      | some _ => exact header.detour
    exact like.copies round (.inr loop.isStatement) place.body.1 place.body.2 body

end Copies

/-- Static resolution comes to the loop where these scopes are around it and nothing is on record
for its ids, and it has nothing to report. -/
structure IsResolved (loop : ForLoop) (enclosing : EnclosingClass) (kind : EnclosingFunction)
    (Γ : Scopes) (r : Resolution) : Prop where
  tracks : Tracks none Γ r.scopes
  encloses : Encloses enclosing Γ
  proper : AreProper loop.tree.marks
  distinct : loop.tree.ids.Nodup
  unused : ∀ id ∈ loop.tree.ids, r.locals[id]? = none
  clean : (loop.tree.resolve enclosing kind r).errors = r.errors

theorem IsResolved.inPlace {enclosing : EnclosingClass} {kind : EnclosingFunction} {r : Resolution}
    (h : loop.IsResolved enclosing kind Γ r) {locals : Locals}
    (recorded : ∀ id ∈ loop.tree.ids,
      locals[id]? = (loop.tree.resolve enclosing kind r).locals[id]?) :
    InPlace locals.records loop Γ := by
  obtain ⟨new, errors, holds⟩ :=
    Stmt.checks h.encloses kind loop.tree loop.wellFormed_tree h.proper r
  have none : new = [] := List.append_right_eq_self.mp (errors.symm.trans h.clean)
  obtain ⟨-, known, accepted⟩ := holds none h.tracks
  have ids := loop.tree.sites_ids Γ
  have agrees : Agrees locals.records (loop.tree.sites Γ) := by
    intro site member
    have own : site.id ∈ loop.tree.ids := ids ▸ List.mem_map_of_mem member
    refine (recorded site.id own).trans ?_
    rw [known]
    have distinct : ((loop.tree.sites Γ).map Site.id).Nodup := ids ▸ h.distinct
    exact Locals.getElem?_record_of_unused r.locals distinct member (h.unused site.id own)
  exact tree_inPlace agrees (accepted _ agrees)

end ForLoop

end Lox
