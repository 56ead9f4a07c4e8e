import Lox.Proofs.Resolution.Nesting
import Lox.Proofs.Resolution.Checks

namespace Lox

open Landmarks

namespace Landmark

structure Passes (l : Landmark) : Prop where
  opensNot : ∀ region, l ≠ .opens region
  closesNot : ∀ region, l ≠ .closes region
  declaresNot : l.declared? = none

theorem passes_of_occurrence {l : Landmark} {occurrence : Nat × Token}
    (h : l.occurrence? = some occurrence) : l.Passes := by
  cases l <;> first | cases h; done | exact ⟨nofun, nofun, rfl⟩

theorem Passes.change {l : Landmark} (h : l.Passes) (p : Region → Bool) : l.change p = 0 :=
  change_of_passes h.opensNot h.closesNot p

end Landmark

namespace Landmarks

variable {text : Landmarks} {l : Landmark} {name : String}

theorem initializes_snoc (h : (text ++ [l]).Initializes name) :
    text.Initializes name ∨
      ∃ outer declared, text = outer ++ [Landmark.declares declared] ∧ l = .opens .initializer ∧
        declared.lexeme = name ∧ 0 < scopes outer ∧ ¬ outer.DeclaredAt name 0 := by
  obtain ⟨outer, declared, inner, same, stays, rest⟩ := h
  have split : text ++ [l] = (outer ++ [.declares declared, .opens .initializer]) ++ inner := by
    simp [same]
  obtain ⟨rfl, begins⟩ | ⟨before, rfl, earlier, stays', -⟩ := split_snoc split stays
  · have begins' : outer ++ [.declares declared] ++ [.opens .initializer] = text ++ [l] := by
      simpa using begins
    obtain ⟨rfl, last⟩ := List.append_inj' begins' rfl
    exact .inr ⟨outer, declared, rfl, (List.cons.inj last).1.symm, rest⟩
  · exact .inl ⟨outer, declared, before, by simp [earlier], stays', rest⟩

theorem initializes_passes (passes : l.Passes) :
    (text ++ [l]).Initializes name ↔ text.Initializes name := by
  constructor
  · intro h
    obtain earlier | ⟨-, -, -, begins, -⟩ := initializes_snoc h
    · exact earlier
    · exact absurd begins (passes.opensNot _)
  · rintro ⟨outer, declared, inner, rfl, stays, rest⟩
    refine ⟨outer, declared, inner ++ [l], by simp, stays_snoc.mpr ⟨stays, ?_⟩, rest⟩
    have := stays.depth_nonneg
    simpa [depth, passes.change] using this

end Landmarks

namespace Nesting

variable {text : Landmarks} {nest : List (Region × List String)} {name : String}

theorem not_initializes (h : Nesting text nest) (closed : .initializer ∉ nest.map Prod.fst) :
    ¬ text.Initializes name := by
  rintro ⟨outer, declared, inner, same, stays, -⟩
  have inside : text.Inside fun region => region = .initializer :=
    ⟨outer ++ [.declares declared], .initializer, inner, by simp [same], stays, by simp⟩
  obtain ⟨region, member, kind⟩ := h.inside_iff.mp inside
  simp only [decide_eq_true_iff] at kind
  exact closed (kind ▸ member)

theorem initializes_opens (h : Nesting text nest) (closed : .initializer ∉ nest.map Prod.fst)
    {declared : Token} :
    Initializes (text ++ [.declares declared] ++ [.opens .initializer]) name ↔
      declared.lexeme = name ∧ 0 < scopes text ∧ ¬ text.DeclaredAt name 0 := by
  constructor
  · intro within
    obtain earlier | ⟨outer, declared', same, -, rest⟩ := initializes_snoc within
    · obtain earlier' | ⟨_, _, _, begins, _⟩ := initializes_snoc earlier
      · exact absurd earlier' (h.not_initializes closed)
      · cases begins
    · obtain ⟨rfl, last⟩ := List.append_inj' same rfl
      cases last
      exact rest
  · rintro ⟨spelled, isLocal, first⟩
    exact ⟨text, declared, [], by simp, stays_nil, spelled, isLocal, first⟩

end Nesting

/-- The errors are those of the violations in a text, one for each and in their order. -/
def Reported (text : Landmarks) (errors : List ResolveError) : Prop :=
  ∃ found : List (Nat × ResolveError), found.Nodup ∧
    (∀ place error, (place, error) ∈ found ↔ ViolatesAt text place error) ∧
      errors = found.map Prod.snd

/-- The occurrence of a name behind a text, under its id and with its distance. -/
def Binds (text : Landmarks) (l : Landmark) (id d : Nat) : Prop :=
  ∃ name, l.occurrence? = some (id, name) ∧ ¬ IsMisplaced text l ∧
    text.LexicalDistance name.lexeme d

/-- The distances on record are the lexical ones, provided that no id occurs twice. -/
def Recorded (text : Landmarks) (locals : Locals) : Prop :=
  ((text.filterMap Landmark.occurrence?).map Prod.fst).Nodup → ∀ id d, locals[id]? = some d ↔
    ∃ place l, text[place]? = some l ∧ Binds (text.take place) l id d

namespace Resolution

variable (r : Resolution) (violated : Bool) (cause : ResolveError.Cause) (token : Token)

@[simp] theorem report_scopes : (r.report cause token).scopes = r.scopes := rfl

@[simp] theorem report_locals : (r.report cause token).locals = r.locals := rfl

@[simp] theorem report_errors : (r.report cause token).errors = r.errors ++ [⟨cause, token⟩] := rfl

@[simp] theorem reportIf_scopes : (r.reportIf violated cause token).scopes = r.scopes := by
  cases violated <;> rfl

@[simp] theorem reportIf_locals : (r.reportIf violated cause token).locals = r.locals := by
  cases violated <;> rfl

@[simp] theorem reportIf_errors : (r.reportIf violated cause token).errors =
    r.errors ++ if violated then [⟨cause, token⟩] else [] := by
  cases violated <;> simp [reportIf]

@[simp] theorem occurrence_scopes (id : Nat) (name : Token) :
    (r.occurrence id name).scopes = r.scopes := by
  unfold occurrence
  split <;> rfl

@[simp] theorem occurrence_errors (id : Nat) (name : Token) :
    (r.occurrence id name).errors = r.errors := by
  unfold occurrence
  split <;> rfl

@[simp] theorem mark_errors (name : String) (ready : Bool) :
    (r.mark name ready).errors = r.errors := by
  unfold mark
  split <;> rfl

@[simp] theorem mark_locals (name : String) (ready : Bool) :
    (r.mark name ready).locals = r.locals := by
  unfold mark
  split <;> rfl

@[simp] theorem declare_errors (name : Token) : (r.declare name).errors =
    r.errors ++ if r.isDeclared name.lexeme then [⟨.alreadyDeclared, name⟩] else [] := by
  unfold declare
  split <;> simp

@[simp] theorem declare_locals (name : Token) : (r.declare name).locals = r.locals := by
  unfold declare
  split <;> simp

end Resolution

section Snoc

variable {text : Landmarks} {l : Landmark}

theorem place_snoc {Q : Landmarks → Landmark → Prop} {place : Nat} :
    (∃ x, (text ++ [l])[place]? = some x ∧ Q ((text ++ [l]).take place) x) ↔
      (∃ x, text[place]? = some x ∧ Q (text.take place) x) ∨ (place = text.length ∧ Q text l) := by
  rcases Nat.lt_trichotomy place text.length with before | rfl | behind
  · simp [List.getElem?_append_left before, List.take_append_of_le_length (Nat.le_of_lt before),
      Nat.ne_of_lt before]
  · simp
  · have outside : text[place]? = none := List.getElem?_eq_none (Nat.le_of_lt behind)
    have outside' : (text ++ [l])[place]? = none := List.getElem?_eq_none (by simp; omega)
    simp [outside, outside', Nat.ne_of_gt behind]

theorem Reported.snoc {errors new : List ResolveError} (h : Reported text errors)
    (distinct : new.Nodup) (violates : ∀ error, Violates text l error ↔ error ∈ new) :
    Reported (text ++ [l]) (errors ++ new) := by
  obtain ⟨found, nodup, places, rfl⟩ := h
  have apart : ∀ entry ∈ found, entry ∉ new.map fun error => (text.length, error) := by
    rintro ⟨place, error⟩ member member'
    obtain ⟨x, known, -⟩ := (places place error).mp member
    obtain ⟨lt, -⟩ := List.getElem?_eq_some_iff.mp known
    obtain ⟨_, -, same⟩ := List.mem_map.mp member'
    cases same
    omega
  refine ⟨found ++ new.map fun error => (text.length, error), ?_, fun place error => ?_, ?_⟩
  · exact List.nodup_append'.mpr ⟨nodup, distinct.map fun _ _ same => (Prod.mk.inj same).2, apart⟩
  · refine Iff.trans ?_ (place_snoc (Q := fun before x => Violates before x error)).symm
    rw [violates, List.mem_append, places]
    simp [ViolatesAt, eq_comm, and_comm]
  · simp [Function.comp_def]

theorem Landmarks.LexicalDistance.unique {name : String} {d d' : Nat}
    (h : text.LexicalDistance name d) (h' : text.LexicalDistance name d') : d = d' := by
  rcases Nat.lt_trichotomy d d' with before | same | behind
  · exact absurd h.1 (h'.2 d before)
  · exact same
  · exact absurd h'.1 (h.2 d' behind)

theorem recorded_snoc_iff {id d : Nat} :
    (∃ place x, (text ++ [l])[place]? = some x ∧ Binds ((text ++ [l]).take place) x id d) ↔
      (∃ place x, text[place]? = some x ∧ Binds (text.take place) x id d) ∨ Binds text l id d := by
  refine (exists_congr fun place =>
    place_snoc (Q := fun before x => Binds before x id d)).trans ?_
  simp only [exists_or, exists_eq_left]

theorem distinct_of_snoc
    (distinct : (((text ++ [l]).filterMap Landmark.occurrence?).map Prod.fst).Nodup) :
    ((text.filterMap Landmark.occurrence?).map Prod.fst).Nodup ∧
      ∀ id name name', l.occurrence? = some (id, name) →
        (id, name') ∉ text.filterMap Landmark.occurrence? := by
  rw [List.filterMap_append, List.map_append, List.nodup_append'] at distinct
  refine ⟨distinct.1, fun id name name' occurs member => ?_⟩
  exact distinct.2.2 (List.mem_map_of_mem member) (by simp [occurs])

theorem Recorded.snoc {locals : Locals} (h : Recorded text locals)
    (nothing : ∀ id d, ¬ Binds text l id d) : Recorded (text ++ [l]) locals := by
  intro distinct id d
  simp [recorded_snoc_iff, nothing, h (distinct_of_snoc distinct).1]

theorem Recorded.snoc_insert {locals : Locals} (h : Recorded text locals) {id d : Nat}
    (binds : Binds text l id d) : Recorded (text ++ [l]) (locals.insert id d) := by
  intro distinct id' d'
  obtain ⟨distinct', new⟩ := distinct_of_snoc distinct
  obtain ⟨name, occurs, placed, found⟩ := binds
  rw [recorded_snoc_iff]
  by_cases same : id = id'
  · subst same
    rw [Std.TreeMap.getElem?_insert_self, Option.some.injEq]
    constructor
    · rintro rfl
      exact .inr ⟨name, occurs, placed, found⟩
    · rintro (⟨place, x, known, name', occurs', -⟩ | ⟨name', occurs', -, found'⟩)
      · refine absurd ?_ (new id name name' occurs)
        exact List.mem_filterMap.mpr ⟨x, List.mem_of_getElem? known, occurs'⟩
      · rw [occurs] at occurs'
        cases occurs'
        exact found.unique found'
  · simp only [Std.TreeMap.getElem?_insert, Std.LawfulEqCmp.compare_eq_iff_eq, same, if_false,
      h distinct']
    refine ⟨.inl, ?_⟩
    rintro (earlier | ⟨name', occurs', -⟩)
    · exact earlier
    · rw [occurs] at occurs'
      cases occurs'
      exact absurd rfl same

theorem Reported.quiet {errors : List ResolveError} (h : Reported text errors)
    (quiet : ∀ error, ¬ Violates text l error) : Reported (text ++ [l]) errors := by
  simpa using h.snoc List.nodup_nil (l := l) fun error => by simp [quiet error]

theorem Recorded.quiet {locals : Locals} (h : Recorded text locals) (quiet : l.occurrence? = none) :
    Recorded (text ++ [l]) locals :=
  h.snoc fun id d ⟨name, occurs, _⟩ => by simp [quiet] at occurs

end Snoc

/-- Where static resolution has got to: behind a text, with the regions of the nest open. -/
structure Stands (text : Landmarks) (nest : List (Region × List String)) (pending : Option String)
    (r : Resolution) : Prop where
  nesting : Nesting text nest
  initializes : ∀ name, text.Initializes name ↔ pending = some name
  tracks : Tracks pending (scopesOf nest) r.scopes
  reported : Reported text r.errors
  recorded : Recorded text r.locals

namespace Stands

variable {text : Landmarks} {l : Landmark} {nest : List (Region × List String)}
  {pending : Option String} {r : Resolution}

theorem start : Stands [] [] none .empty where
  nesting := .start
  initializes name := by simp [Initializes]
  tracks := .globals
  reported := ⟨[], List.nodup_nil, by simp [ViolatesAt], rfl⟩
  recorded := fun _ id d => by simp [Resolution.empty]

theorem passes (h : Stands text nest pending r) (passes : l.Passes) {r' : Resolution}
    (scopes : r'.scopes = r.scopes) (reported : Reported (text ++ [l]) r'.errors)
    (recorded : Recorded (text ++ [l]) r'.locals) : Stands (text ++ [l]) nest pending r' where
  nesting := .passes h.nesting passes.opensNot passes.closesNot passes.declaresNot
  initializes name := (initializes_passes passes).trans (h.initializes name)
  tracks := scopes ▸ h.tracks
  reported := reported
  recorded := recorded

theorem distance?_iff (h : Stands text nest pending r) {name : String} {d : Nat} :
    r.distance? name = some d ↔ text.LexicalDistance name d := by
  rw [h.nesting.lexicalDistance_iff, Resolution.distance?, h.tracks.findIdx?]

theorem recorded_occurrence (h : Stands text nest pending r) {id : Nat} {name : Token}
    (occurs : l.occurrence? = some (id, name)) (placed : ¬ IsMisplaced text l) {r' : Resolution}
    (scopes : r'.scopes = r.scopes) (locals : r'.locals = r.locals) :
    Recorded (text ++ [l]) (r'.occurrence id name).locals := by
  have same : r'.distance? = r.distance? := by
    funext name
    rw [Resolution.distance?, Resolution.distance?, scopes]
  cases found : r.distance? name.lexeme with
  | none =>
    have step : r'.occurrence id name = r' := by simp [Resolution.occurrence, same, found]
    rw [step, locals]
    refine h.recorded.snoc fun id' d binds => ?_
    obtain ⟨name', occurs', -, known⟩ := binds
    rw [occurs] at occurs'
    cases occurs'
    rw [← h.distance?_iff, found] at known
    cases known
  | some d =>
    have step : r'.occurrence id name = { r' with locals := r'.locals.insert id d } := by
      simp [Resolution.occurrence, same, found]
    rw [step, locals]
    exact h.recorded.snoc_insert ⟨name, occurs, placed, h.distance?_iff.mp found⟩

theorem occurrence (h : Stands text nest pending r) {id : Nat} {name : Token}
    (occurs : l.occurrence? = some (id, name)) (quiet : ∀ error, ¬ Violates text l error)
    (placed : ¬ IsMisplaced text l) : Stands (text ++ [l]) nest pending (r.occurrence id name) :=
  h.passes (Landmark.passes_of_occurrence occurs) (by simp) (by simpa using h.reported.quiet quiet)
    (h.recorded_occurrence occurs placed rfl rfl)

theorem isPending_iff (h : Stands text nest pending r) {name : String} :
    r.isPending name = true ↔ text.Initializes name := by
  rw [h.initializes]
  have tracks := h.tracks
  generalize scopesOf nest = Γ at tracks
  generalize hs : r.scopes = tables at tracks
  cases tracks with
  | globals => simp [Resolution.isPending, hs]
  | scope declared entries rest =>
    simp only [Resolution.isPending, hs, entries]
    constructor
    · intro found
      split at found <;> simp_all
    · intro found
      simp [declared name found, found]

theorem reads (h : Stands text nest pending r) (id : Nat) (name : Token) :
    Stands (text ++ [.reads id name]) nest pending
      ((r.reportIf (r.isPending name.lexeme) .ownInitializer name).occurrence id name) := by
  refine h.passes (Landmark.passes_of_occurrence rfl) (by simp) ?_
    (h.recorded_occurrence rfl (by simp [IsMisplaced]) (by simp) (by simp))
  rw [Resolution.occurrence_errors, Resolution.reportIf_errors]
  refine h.reported.snoc (by split <;> simp) fun error => ?_
  constructor
  · intro violates
    cases violates with
    | ownInitializer own => simp [h.isPending_iff.mpr own]
  · intro member
    split at member
    · next pending =>
      cases List.mem_singleton.mp member
      exact .ownInitializer (h.isPending_iff.mp pending)
    · cases member

theorem assigns (h : Stands text nest pending r) (id : Nat) (name : Token) :
    Stands (text ++ [.assigns id name]) nest pending (r.occurrence id name) :=
  h.occurrence rfl (fun _ violates => nomatch violates) (by simp [IsMisplaced])

theorem misplaced (h : Stands text nest pending r) (passes : l.Passes)
    {cause : ResolveError.Cause} {token : Token}
    (violates : ∀ error, Violates text l error ↔ error = ⟨cause, token⟩)
    (misplaced : IsMisplaced text l) :
    Stands (text ++ [l]) nest pending (r.report cause token) :=
  h.passes passes rfl
    (h.reported.snoc (List.nodup_singleton _) fun error => by simp [violates])
    (h.recorded.snoc fun _ _ ⟨_, _, placed, _⟩ => placed misplaced)

end Stands

namespace Region

def enclosingClass : Region → EnclosingClass
  | classDecl true => .subclass
  | classDecl false => .plain
  | _ => .none

def enclosingFunction : Region → EnclosingFunction
  | body kind => kind
  | _ => .none

theorem eq_of_isClass {region : Region} (h : region.isClass = true) :
    ∃ isSubclass, region = .classDecl isSubclass := by
  cases region <;> first | exact ⟨_, rfl⟩ | cases h

theorem eq_of_isBody {region : Region} (h : region.isBody = true) :
    ∃ kind, region = .body kind := by
  cases region <;> first | exact ⟨_, rfl⟩ | cases h

end Region

def classAmong (regions : List Region) : EnclosingClass :=
  ((regions.find? Region.isClass).map Region.enclosingClass).getD .none

def functionAmong (regions : List Region) : EnclosingFunction :=
  ((regions.find? Region.isBody).map Region.enclosingFunction).getD .none

/-- What a step in some regions is told about them. -/
structure Suits (enclosing : EnclosingClass) (kind : EnclosingFunction) (regions : List Region) :
    Prop where
  enclosing : classAmong regions = enclosing
  kind : functionAmong regions = kind
  closed : .initializer ∉ regions
  kinds : .body .none ∉ regions

namespace Nesting

variable {text : Landmarks} {nest : List (Region × List String)}

theorem not_inside_iff (h : Nesting text nest) {p : Region → Bool} :
    ¬ text.Inside p ↔ (nest.map Prod.fst).find? p = none := by
  rw [h.inside_iff, List.find?_eq_none]
  simp

theorem classAmong_eq_none (h : Nesting text nest) :
    classAmong (nest.map Prod.fst) = .none ↔ ¬ text.Inside Region.isClass := by
  rw [h.not_inside_iff, classAmong]
  cases found : (nest.map Prod.fst).find? Region.isClass with
  | none => simp
  | some region =>
    obtain ⟨isSubclass, rfl⟩ := Region.eq_of_isClass (List.find?_some found)
    cases isSubclass <;> simp [Region.enclosingClass]

theorem classAmong_eq_plain (h : Nesting text nest) :
    classAmong (nest.map Prod.fst) = .plain ↔
      text.Innermost Region.isClass (.classDecl false) := by
  rw [h.innermost_iff, classAmong]
  cases found : (nest.map Prod.fst).find? Region.isClass with
  | none => simp
  | some region =>
    obtain ⟨isSubclass, rfl⟩ := Region.eq_of_isClass (List.find?_some found)
    cases isSubclass <;> simp [Region.enclosingClass]

theorem functionAmong_eq_none (h : Nesting text nest) (kinds : .body .none ∉ nest.map Prod.fst) :
    functionAmong (nest.map Prod.fst) = .none ↔ ¬ text.Inside Region.isBody := by
  rw [h.not_inside_iff, functionAmong]
  cases found : (nest.map Prod.fst).find? Region.isBody with
  | none => simp
  | some region =>
    obtain ⟨kind, rfl⟩ := Region.eq_of_isBody (List.find?_some found)
    have known : kind ≠ .none := by
      rintro rfl
      exact kinds (List.mem_of_find?_eq_some found)
    simp [Region.enclosingFunction, known]

theorem functionAmong_eq_initializer (h : Nesting text nest) :
    functionAmong (nest.map Prod.fst) = .initializer ↔
      text.Innermost Region.isBody (.body .initializer) := by
  rw [h.innermost_iff, functionAmong]
  cases found : (nest.map Prod.fst).find? Region.isBody with
  | none => simp
  | some region =>
    obtain ⟨kind, rfl⟩ := Region.eq_of_isBody (List.find?_some found)
    simp [Region.enclosingFunction]

end Nesting

namespace Stands

variable {text : Landmarks} {nest : List (Region × List String)}
  {pending : Option String} {r : Resolution}

theorem this (h : Stands text nest pending r) {enclosing : EnclosingClass}
    (known : classAmong (nest.map Prod.fst) = enclosing) (id : Nat) (keyword : Token) :
    Stands (text ++ [.this id keyword]) nest pending (Expr.resolveThis enclosing id keyword r) := by
  have violates {error : ResolveError} : Violates text (.this id keyword) error ↔
      enclosing = .none ∧ error = ⟨.thisOutsideClass, keyword⟩ := by
    rw [← known, h.nesting.classAmong_eq_none]
    constructor
    · intro violates
      cases violates with
      | thisOutsideClass outside => exact ⟨outside, rfl⟩
    · rintro ⟨outside, rfl⟩
      exact .thisOutsideClass outside
  by_cases outside : enclosing = .none
  · subst outside
    exact h.misplaced (Landmark.passes_of_occurrence rfl) (by simp [violates])
      ⟨_, violates.mpr ⟨rfl, rfl⟩⟩
  · have step : Expr.resolveThis enclosing id keyword r = r.occurrence id keyword := by
      cases enclosing <;> first | rfl | exact absurd rfl outside
    rw [step]
    exact h.occurrence rfl (by simp [violates, outside]) (by simp [IsMisplaced, violates, outside])

theorem super (h : Stands text nest pending r) {enclosing : EnclosingClass}
    (known : classAmong (nest.map Prod.fst) = enclosing) (id : Nat) (keyword : Token) :
    Stands (text ++ [.super id keyword]) nest pending
      (Expr.resolveSuper enclosing id keyword r) := by
  have violates {error : ResolveError} : Violates text (.super id keyword) error ↔
      (enclosing = .none ∧ error = ⟨.superOutsideClass, keyword⟩) ∨
        (enclosing = .plain ∧ error = ⟨.superWithoutSuperclass, keyword⟩) := by
    rw [← known, h.nesting.classAmong_eq_none, h.nesting.classAmong_eq_plain]
    constructor
    · intro violates
      cases violates with
      | superOutsideClass outside => exact .inl ⟨outside, rfl⟩
      | superWithoutSuperclass inside => exact .inr ⟨inside, rfl⟩
    · rintro (⟨outside, rfl⟩ | ⟨inside, rfl⟩)
      · exact .superOutsideClass outside
      · exact .superWithoutSuperclass inside
  cases enclosing with
  | none =>
    exact h.misplaced (Landmark.passes_of_occurrence rfl) (by simp [violates])
      ⟨_, violates.mpr (.inl ⟨rfl, rfl⟩)⟩
  | plain =>
    exact h.misplaced (Landmark.passes_of_occurrence rfl) (by simp [violates])
      ⟨_, violates.mpr (.inr ⟨rfl, rfl⟩)⟩
  | subclass => exact h.occurrence rfl (by simp [violates]) (by simp [IsMisplaced, violates])

theorem returns (h : Stands text nest pending r) {kind : EnclosingFunction}
    (known : functionAmong (nest.map Prod.fst) = kind) (kinds : .body .none ∉ nest.map Prod.fst)
    (keyword : Token) (hasValue : Bool) :
    Stands (text ++ [.returns keyword hasValue]) nest pending
      ((r.reportIf (kind == .none) .topLevelReturn keyword).reportIf
        (hasValue && kind == .initializer) .initializerReturn keyword) := by
  have violates {error : ResolveError} : Violates text (.returns keyword hasValue) error ↔
      (kind = .none ∧ error = ⟨.topLevelReturn, keyword⟩) ∨
        (hasValue = true ∧ kind = .initializer ∧ error = ⟨.initializerReturn, keyword⟩) := by
    rw [← known, h.nesting.functionAmong_eq_none kinds, h.nesting.functionAmong_eq_initializer]
    constructor
    · intro violates
      cases violates with
      | topLevelReturn outside => exact .inl ⟨outside, rfl⟩
      | initializerReturn inside => exact .inr ⟨rfl, inside, rfl⟩
    · rintro (⟨outside, rfl⟩ | ⟨rfl, inside, rfl⟩)
      · exact .topLevelReturn outside
      · exact .initializerReturn inside
  refine h.passes (l := .returns keyword hasValue) ⟨nofun, nofun, rfl⟩ (by simp) ?_
    (by simpa using h.recorded.quiet rfl)
  simp only [Resolution.reportIf_errors, List.append_assoc]
  refine h.reported.snoc ?_ fun error => ?_
  · cases kind <;> cases hasValue <;> simp
  · rw [violates]
    cases kind <;> cases hasValue <;> simp

theorem inherits (h : Stands text nest pending r) (name : Token) (superclass : Expr) :
    Stands (text ++ Stmt.inheritance name (some superclass)) nest pending
      (r.reportIf (Stmt.inheritsItself name superclass) .inheritsItself
        (Stmt.superclassName name superclass)) := by
  cases superclass with
  | var id superclass =>
    refine h.passes (l := .inherits name superclass) ⟨nofun, nofun, rfl⟩ (by simp) ?_
      (by simpa using h.recorded.quiet rfl)
    rw [Resolution.reportIf_errors]
    refine h.reported.snoc (by split <;> simp) fun error => ?_
    simp only [Stmt.inheritsItself, Stmt.superclassName, beq_iff_eq]
    constructor
    · intro violates
      cases violates with
      | inheritsItself same => simp [same]
    · intro member
      split at member
      · next same =>
        cases List.mem_singleton.mp member
        exact .inheritsItself same
      · cases member
  | _ => simpa [Stmt.inheritance, Stmt.inheritsItself, Resolution.reportIf] using h

end Stands

def declareIn (name : String) : List (Region × List String) → List (Region × List String)
  | [] => []
  | (region, names) :: outer => (region, name :: names) :: outer

theorem regions_declareIn (name : String) (nest : List (Region × List String)) :
    (declareIn name nest).map Prod.fst = nest.map Prod.fst := by
  cases nest <;> rfl

def IsReady (regions : List Region) : Prop := ∀ region ∈ regions.head?, region.isScope = true

theorem scopesOf_declareIn {nest : List (Region × List String)}
    (ready : IsReady (nest.map Prod.fst)) (name : String) :
    scopesOf (declareIn name nest) = (scopesOf nest).declare name := by
  cases nest with
  | nil => rfl
  | cons entry outer =>
    have isScope : entry.1.isScope = true := ready _ (by simp)
    simp [scopesOf, declareIn, Scopes.declare, isScope]

theorem Nesting.declare {text : Landmarks} {nest : List (Region × List String)} {l : Landmark}
    {name : String} (h : Nesting text nest) (ready : IsReady (nest.map Prod.fst))
    (declares : l.declared? = some name) : Nesting (text ++ [l]) (declareIn name nest) := by
  cases nest with
  | nil => exact .global h declares
  | cons entry outer => exact .declares h (ready _ (by simp)) declares

namespace Tracks

variable {pending : Option String} {Γ : Scopes} {r : Resolution}

theorem isDeclared_iff (h : Tracks pending Γ r.scopes) {name : String} :
    r.isDeclared name = true ↔ ∃ names, Γ[0]? = some names ∧ name ∈ names := by
  generalize hs : r.scopes = tables at h
  cases h with
  | globals => simp [Resolution.isDeclared, hs]
  | scope _ entries _ => simp [Resolution.isDeclared, hs, Tracks.contains entries]

theorem again {names : List String} {tables : List (Table Bool)} {name : String}
    (h : Tracks pending (names :: Γ) tables) (member : name ∈ names) :
    Tracks pending ((name :: names) :: Γ) tables := by
  cases h with
  | scope declared entries rest =>
    refine .scope (fun n pending => List.mem_cons_of_mem _ (declared n pending)) (fun n => ?_) rest
    have same : n ∈ name :: names ↔ n ∈ names := by
      rw [List.mem_cons, or_iff_right_of_imp]
      rintro rfl
      exact member
    simp only [entries, same]

theorem mark (h : Tracks none Γ r.scopes) (name : String) (ready : Bool) :
    Tracks (if ready then none else Γ.pending name) (Γ.declare name)
      (r.mark name ready).scopes := by
  generalize hs : r.scopes = tables at h
  cases h with
  | globals => simpa [Resolution.mark, hs, Scopes.declare, Scopes.pending] using Tracks.globals
  | scope declared entries rest =>
    simpa [Resolution.mark, hs, Scopes.declare, Scopes.pending] using
      (Tracks.scope declared entries rest).insert name ready

theorem declare (h : Tracks none Γ r.scopes) (name : Token) :
    Tracks (if r.isDeclared name.lexeme then none else Γ.pending name.lexeme)
      (Γ.declare name.lexeme) (r.declare name).scopes := by
  cases declared : r.isDeclared name.lexeme with
  | false => simpa [Resolution.declare, declared] using h.mark name.lexeme false
  | true =>
    obtain ⟨names, first, member⟩ := h.isDeclared_iff.mp declared
    cases Γ with
    | nil => cases first
    | cons names Γ =>
      cases first
      simpa [Resolution.declare, declared, Scopes.declare] using h.again member

theorem define {name : String} (h : Tracks pending (Γ.declare name) r.scopes)
    (only : ∀ n ∈ pending, n = name) : Tracks none (Γ.declare name) (r.define name).scopes := by
  generalize hs : r.scopes = tables at h
  cases Γ with
  | nil =>
    cases h
    simpa [Resolution.define, Resolution.mark, hs, Scopes.declare] using Tracks.globals
  | cons names Γ =>
    cases h with
    | scope _ entries rest =>
      simp only [Resolution.define, Resolution.mark, hs]
      refine .scope (by simp) (fun n => ?_) rest
      rw [Table.get?_insert]
      by_cases same : n = name
      · simp [same]
      · have ready : pending ≠ some n := fun found => same (only n found)
        simp [same, entries n, ready]

end Tracks

theorem pending_eq_some {declared : Bool} {Γ : Scopes} {name n : String} :
    (if declared then none else Γ.pending name) = some n ↔
      declared = false ∧ Γ ≠ [] ∧ name = n := by
  cases declared <;> simp [Scopes.pending]

theorem scopesOf_ne_nil {nest : List (Region × List String)} :
    scopesOf nest ≠ [] ↔ 0 < countScopes nest := by
  rw [← List.length_pos_iff, scopesOf, List.length_map, ← List.countP_eq_length_filter]
  rfl

namespace Stands

variable {text : Landmarks} {nest : List (Region × List String)} {r : Resolution}

theorem ofClosed (nesting : Nesting text nest) (closed : .initializer ∉ nest.map Prod.fst)
    (tracks : Tracks none (scopesOf nest) r.scopes) (reported : Reported text r.errors)
    (recorded : Recorded text r.locals) : Stands text nest none r where
  nesting := nesting
  initializes _ := ⟨fun within => absurd within (nesting.not_initializes closed), nofun⟩
  tracks := tracks
  reported := reported
  recorded := recorded

theorem isDeclared_iff (h : Stands text nest none r) {name : String} :
    r.isDeclared name = true ↔ text.DeclaredAt name 0 :=
  h.tracks.isDeclared_iff.trans h.nesting.declaredAt_iff.symm

theorem reported_declare (h : Stands text nest none r) (name : Token) :
    Reported (text ++ [.declares name]) (r.declare name).errors := by
  rw [Resolution.declare_errors]
  refine h.reported.snoc (by split <;> simp) fun error => ?_
  constructor
  · intro violates
    cases violates with
    | alreadyDeclared earlier => simp [h.isDeclared_iff.mpr earlier]
  · intro member
    split at member
    · next again =>
      cases List.mem_singleton.mp member
      exact .alreadyDeclared (h.isDeclared_iff.mp again)
    · cases member

theorem declares (h : Stands text nest none r) (ready : IsReady (nest.map Prod.fst))
    (closed : .initializer ∉ nest.map Prod.fst) (name : Token) :
    Stands (text ++ [.declares name]) (declareIn name.lexeme nest) none
      (r.declareAndDefine name) := by
  refine ofClosed (h.nesting.declare ready rfl) (by rwa [regions_declareIn]) ?_ ?_ ?_
  · rw [scopesOf_declareIn ready]
    exact (h.tracks.declare name).define fun n found => (pending_eq_some.mp found).2.2.symm
  · simpa [Resolution.declareAndDefine, Resolution.define] using h.reported_declare name
  · simpa [Resolution.declareAndDefine, Resolution.define] using h.recorded.quiet rfl

theorem reported_define {pending : Option String} {l : Landmark} {name : String}
    (h : Stands text nest pending r) (quiet : ∀ error, ¬ Violates text l error) :
    Reported (text ++ [l]) (r.define name).errors := by
  rw [Resolution.define, Resolution.mark_errors]
  exact h.reported.quiet quiet

theorem binds (h : Stands text nest none r) (ready : IsReady (nest.map Prod.fst))
    (closed : .initializer ∉ nest.map Prod.fst) (name : String) :
    Stands (text ++ [.binds name]) (declareIn name nest) none (r.define name) := by
  refine ofClosed (h.nesting.declare ready rfl) (by rwa [regions_declareIn]) ?_ ?_ ?_
  · rw [scopesOf_declareIn ready]
    exact h.tracks.mark name true
  · exact h.reported_define (l := .binds name) fun _ violates => nomatch violates
  · simpa [Resolution.define] using h.recorded.quiet rfl

theorem opensInitializer (h : Stands text nest none r) (ready : IsReady (nest.map Prod.fst))
    (closed : .initializer ∉ nest.map Prod.fst) (name : Token) :
    ∃ pending, (∀ n ∈ pending, n = name.lexeme) ∧
      Stands (text ++ [.declares name] ++ [.opens .initializer])
        ((.initializer, []) :: declareIn name.lexeme nest) pending (r.declare name) := by
  refine ⟨if r.isDeclared name.lexeme then none else (scopesOf nest).pending name.lexeme, ?_,
    .opens (h.nesting.declare ready rfl) _, fun n => ?_, ?_, ?_, ?_⟩
  · intro n found
    exact (pending_eq_some.mp found).2.2.symm
  · rw [h.nesting.initializes_opens closed, pending_eq_some, ← h.isDeclared_iff,
      h.nesting.scopes_eq, scopesOf_ne_nil, Bool.not_eq_true]
    norm_cast
    constructor
    · rintro ⟨rfl, isLocal, first⟩
      exact ⟨first, isLocal, rfl⟩
    · rintro ⟨first, isLocal, rfl⟩
      exact ⟨rfl, isLocal, first⟩
  · have same : scopesOf ((.initializer, []) :: declareIn name.lexeme nest) =
        (scopesOf nest).declare name.lexeme := by
      rw [← scopesOf_declareIn ready]
      rfl
    rw [same]
    exact h.tracks.declare name
  · exact (h.reported_declare name).quiet (l := .opens .initializer)
      fun _ violates => nomatch violates
  · rw [Resolution.declare_locals]
    exact (h.recorded.quiet rfl).quiet rfl

theorem closesInitializer {pending : Option String} {name : Token}
    (h : Stands text ((.initializer, []) :: declareIn name.lexeme nest) pending r)
    (ready : IsReady (nest.map Prod.fst)) (closed : .initializer ∉ nest.map Prod.fst)
    (only : ∀ n ∈ pending, n = name.lexeme) :
    Stands (text ++ [.closes .initializer]) (declareIn name.lexeme nest) none
      (r.define name.lexeme) := by
  refine ofClosed (.closes h.nesting) (by rwa [regions_declareIn]) ?_ ?_ ?_
  · have tracks : Tracks pending (scopesOf (declareIn name.lexeme nest)) r.scopes := h.tracks
    rw [scopesOf_declareIn ready] at tracks ⊢
    exact tracks.define only
  · exact h.reported_define (l := .closes .initializer) fun _ violates => nomatch violates
  · simpa [Resolution.define] using h.recorded.quiet rfl

theorem opens (h : Stands text nest none r) (closed : .initializer ∉ nest.map Prod.fst)
    {region : Region} (other : region ≠ .initializer) {r' : Resolution}
    (tracks : Tracks none (scopesOf ((region, []) :: nest)) r'.scopes)
    (errors : r'.errors = r.errors) (locals : r'.locals = r.locals) :
    Stands (text ++ [.opens region]) ((region, []) :: nest) none r' := by
  refine ofClosed (.opens h.nesting region) (by simp [other.symm]; simpa using closed) tracks ?_ ?_
  · rw [errors]
    exact h.reported.quiet (l := .opens region) fun _ violates => nomatch violates
  · rw [locals]
    exact h.recorded.quiet rfl

theorem closes {region : Region} {names : List String}
    (h : Stands text ((region, names) :: nest) none r) (closed : .initializer ∉ nest.map Prod.fst)
    {r' : Resolution} (tracks : Tracks none (scopesOf nest) r'.scopes)
    (errors : r'.errors = r.errors) (locals : r'.locals = r.locals) :
    Stands (text ++ [.closes region]) nest none r' := by
  refine ofClosed (.closes h.nesting) closed tracks ?_ ?_
  · rw [errors]
    exact h.reported.quiet (l := .closes region) fun _ violates => nomatch violates
  · rw [locals]
    exact h.recorded.quiet rfl

theorem opensScope (h : Stands text nest none r) (closed : .initializer ∉ nest.map Prod.fst)
    {region : Region} (isScope : region.isScope = true) :
    Stands (text ++ [.opens region]) ((region, []) :: nest) none r.enter := by
  refine h.opens closed ?_ ?_ rfl rfl
  · rintro rfl
    cases isScope
  · have inner : scopesOf ((region, []) :: nest) = [] :: scopesOf nest := by
      simp [scopesOf, isScope]
    rw [inner]
    exact .scope (by simp) (fun _ => by simp) h.tracks

theorem closesScope {region : Region} {names : List String}
    (h : Stands text ((region, names) :: nest) none r) (closed : .initializer ∉ nest.map Prod.fst)
    (isScope : region.isScope = true) : Stands (text ++ [.closes region]) nest none r.leave := by
  refine h.closes closed ?_ rfl rfl
  have tracks := h.tracks
  have inner : scopesOf ((region, names) :: nest) = names :: scopesOf nest := by
    simp [scopesOf, isScope]
  rw [inner] at tracks
  generalize hs : r.scopes = tables at tracks
  cases tracks with
  | scope _ _ rest => simpa [Resolution.leave, hs] using rest

end Stands

end Lox
