import Lox.Proofs.Resolution.Locals
import Lox.Proofs.Syntax.Names

namespace Lox

/-- The tables hold the names declared so far, all of them ready but a pending one. -/
inductive Tracks : Option String → Scopes → List (Table Bool) → Prop where
  | globals : Tracks none [] []
  | scope {pending : Option String} {names : List String} {table : Table Bool} {Γ : Scopes}
    {outer : List (Table Bool)} (declared : ∀ n ∈ pending, n ∈ names)
    (entries : ∀ n, table.get? n =
      if n ∈ names then some (decide (pending ≠ some n)) else none)
    (rest : Tracks none Γ outer) : Tracks pending (names :: Γ) (table :: outer)

namespace Tracks

variable {pending : Option String} {Γ : Scopes} {tables : List (Table Bool)}

theorem contains {names : List String} {table : Table Bool} {n : String}
    (entries : ∀ n, table.get? n = if n ∈ names then some (decide (pending ≠ some n)) else none) :
    table.contains n = decide (n ∈ names) := by
  rw [Table.contains, entries n]
  by_cases h : n ∈ names <;> simp [h]

theorem findIdx? (h : Tracks pending Γ tables) (name : String) :
    tables.findIdx? (fun table => table.contains name) = Γ.distance? name := by
  induction h with
  | globals => rfl
  | @scope _ names _ _ _ _ entries _ ih =>
    rw [Scopes.distance?_cons, List.findIdx?_cons, contains entries, ih]
    by_cases h : name ∈ names <;> simp [h]

theorem insert {names : List String} {table : Table Bool} {outer : List (Table Bool)}
    (h : Tracks none (names :: Γ) (table :: outer)) (name : String) (ready : Bool) :
    Tracks (if ready then none else some name) ((name :: names) :: Γ)
      (table.insert name ready :: outer) := by
  cases h with
  | scope _ entries rest =>
    refine .scope (fun n found => ?_) (fun n => ?_) rest
    · cases ready with
      | true => cases found
      | false => simp_all
    · rw [Table.get?_insert]
      by_cases same : n = name
      · cases ready <;> simp [same]
      · rw [if_neg same, entries n]
        have other : name ≠ n := fun h => same h.symm
        by_cases member : n ∈ names <;> cases ready <;> simp [same, other, member]

theorem ready {names : List String} {table : Table Bool} {outer : List (Table Bool)} {name : String}
    (h : Tracks (some name) ((name :: names) :: Γ) (table :: outer)) :
    Tracks none ((name :: names) :: Γ) (table.insert name true :: outer) := by
  cases h with
  | scope _ entries rest =>
    refine .scope (by simp) (fun n => ?_) rest
    rw [Table.get?_insert]
    by_cases same : n = name
    · simp [same]
    · rw [if_neg same, entries n]
      have other : name ≠ n := fun h => same h.symm
      by_cases member : n ∈ names <;> simp [same, other, member]

end Tracks

/-- What holds of all records that have these sites. -/
def Given (sites : List Site) (Fact : Records → Prop) : Prop :=
  ∀ records : Records, Agrees records sites → Fact records

/-- The step `f`, from a place with scopes `Γ` to one with `Γ'`. -/
def Checks (pending : Option String) (Γ : Scopes) (f : Resolution → Resolution)
    (pending' : Option String) (Γ' : Scopes) (sites : List Site) (Fact : Prop) : Prop :=
  ∀ r, ∃ new, (f r).errors = r.errors ++ new ∧
    (new = [] → Tracks pending Γ r.scopes →
      Tracks pending' Γ' (f r).scopes ∧ (f r).locals = r.locals.record sites ∧ Fact)

namespace Checks

variable {pending pending' pending'' : Option String} {Γ Γ' Γ'' : Scopes}
  {f g : Resolution → Resolution} {sites sites' : List Site} {Fact Fact' : Prop}

theorem seq (first : Checks pending Γ f pending' Γ' sites Fact)
    (second : Checks pending' Γ' g pending'' Γ'' sites' Fact') :
    Checks pending Γ (fun r => g (f r)) pending'' Γ'' (sites ++ sites') (Fact ∧ Fact') := by
  intro r
  obtain ⟨new, errors, holds⟩ := first r
  obtain ⟨more, errors', holds'⟩ := second (f r)
  refine ⟨new ++ more, by rw [errors', errors, List.append_assoc], fun none tracks => ?_⟩
  obtain ⟨noneBefore, noneAfter⟩ := List.append_eq_nil_iff.mp none
  obtain ⟨tracks', locals, fact⟩ := holds noneBefore tracks
  obtain ⟨tracks'', locals', fact'⟩ := holds' noneAfter tracks'
  refine ⟨tracks'', ?_, fact, fact'⟩
  rw [locals', locals, Locals.record_append]

theorem weaken (h : Checks pending Γ f pending' Γ' sites Fact) (implies : Fact → Fact') :
    Checks pending Γ f pending' Γ' sites Fact' := by
  intro r
  obtain ⟨new, errors, holds⟩ := h r
  refine ⟨new, errors, fun none tracks => ?_⟩
  obtain ⟨tracks', locals, fact⟩ := holds none tracks
  exact ⟨tracks', locals, implies fact⟩

theorem both {P Q : Records → Prop} (first : Checks pending Γ f pending' Γ' sites (Given sites P))
    (second : Checks pending' Γ' g pending'' Γ'' sites' (Given sites' Q)) :
    Checks pending Γ (fun r => g (f r)) pending'' Γ'' (sites ++ sites')
      (Given (sites ++ sites') fun records => P records ∧ Q records) := by
  refine (first.seq second).weaken fun facts records agrees => ?_
  obtain ⟨agrees, agrees'⟩ := agrees_append.mp agrees
  exact ⟨facts.1 records agrees, facts.2 records agrees'⟩

theorem moves (errors : ∀ r, (f r).errors = r.errors) (locals : ∀ r, (f r).locals = r.locals)
    (tracks : ∀ r, Tracks pending Γ r.scopes → Tracks pending' Γ' (f r).scopes) :
    Checks pending Γ f pending' Γ' [] True :=
  fun r => ⟨[], by rw [errors, List.append_nil], fun _ h => ⟨tracks r h, locals r, trivial⟩⟩

theorem nothing : Checks pending Γ (fun r => r) pending Γ [] True :=
  moves (fun _ => rfl) (fun _ => rfl) fun _ h => h

theorem report (cause : ResolveError.Cause) (token : Token) :
    Checks pending Γ (fun r => r.report cause token) pending' Γ' sites Fact :=
  fun _ => ⟨_, rfl, fun none => (List.cons_ne_nil _ _ none).elim⟩

theorem reportIf {violated : Resolution → Bool} (cause : ResolveError.Cause) (token : Token)
    (h : ∀ r, Tracks pending Γ r.scopes → violated r = false → Fact) :
    Checks pending Γ (fun r => r.reportIf (violated r) cause token) pending Γ [] Fact := by
  intro r
  cases v : violated r with
  | true =>
    refine ⟨[⟨cause, token⟩], ?_, fun none => (List.cons_ne_nil _ _ none).elim⟩
    simp only [Resolution.reportIf, v, if_true, Resolution.report]
  | false =>
    refine ⟨[], ?_, fun _ tracks => ?_⟩
    · simp only [Resolution.reportIf, v, Bool.false_eq_true, if_false, List.append_nil]
    · simp only [Resolution.reportIf, v, Bool.false_eq_true, if_false]
      exact ⟨tracks, rfl, h r tracks v⟩

theorem enter : Checks none Γ Resolution.enter none ([] :: Γ) [] True :=
  moves (fun _ => rfl) (fun _ => rfl) fun _ tracks => .scope nofun (fun _ => by simp) tracks

theorem leave {names : List String} :
    Checks none (names :: Γ) Resolution.leave none Γ [] True := by
  refine moves (fun _ => rfl) (fun _ => rfl) fun r tracks => ?_
  generalize hs : r.scopes = tables at tracks
  cases tracks with
  | scope _ _ rest =>
    simp only [Resolution.leave, hs, List.tail_cons]
    exact rest

theorem errors_mark (r : Resolution) (name : String) (ready : Bool) :
    (r.mark name ready).errors = r.errors ∧ (r.mark name ready).locals = r.locals := by
  cases h : r.scopes <;> simp [Resolution.mark, h]

theorem declare (name : Token) :
    Checks none Γ (fun r => r.declare name) (Γ.pending name.lexeme) (Γ.declare name.lexeme) []
      (Γ.IsFresh name.lexeme) := by
  intro r
  beta_reduce
  cases declared : r.isDeclared name.lexeme with
  | true =>
    refine ⟨[⟨.alreadyDeclared, name⟩], ?_, fun none => (List.cons_ne_nil _ _ none).elim⟩
    simp only [Resolution.declare, declared, if_true, Resolution.report]
  | false =>
    have step : r.declare name = r.mark name.lexeme false := by simp [Resolution.declare, declared]
    obtain ⟨errors, locals⟩ := errors_mark r name.lexeme false
    refine ⟨[], by rw [step, errors, List.append_nil], fun _ tracks => ?_⟩
    rw [step]
    generalize hs : r.scopes = tables at tracks
    cases tracks with
    | globals =>
      refine ⟨?_, locals, nofun⟩
      simp only [Resolution.mark, hs, Scopes.declare, Scopes.pending, if_true]
      exact .globals
    | @scope _ names table Γ outer declared' entries rest =>
      have fresh : name.lexeme ∉ names := by
        simpa [Resolution.isDeclared, hs, Tracks.contains entries] using declared
      refine ⟨?_, locals, fun names' found => ?_⟩
      · simp only [Resolution.mark, hs]
        exact (Tracks.scope declared' entries rest).insert name.lexeme false
      · cases found
        exact fresh

theorem define (name : String) :
    Checks (Γ.pending name) (Γ.declare name) (fun r => r.define name) none (Γ.declare name) []
      True := by
  refine moves (fun r => (errors_mark r name true).1) (fun r => (errors_mark r name true).2)
    fun r tracks => ?_
  cases Γ with
  | nil =>
    generalize hs : r.scopes = tables at tracks
    cases tracks
    simp only [Resolution.define, Resolution.mark, hs]
    exact .globals
  | cons names Γ =>
    generalize hs : r.scopes = tables at tracks
    cases tables with
    | nil => cases tracks
    | cons table outer =>
      simp only [Resolution.define, Resolution.mark, hs]
      exact Tracks.ready tracks

theorem declareAndDefine (name : Token) :
    Checks none Γ (fun r => r.declareAndDefine name) none (Γ.declare name.lexeme) []
      (Γ.IsFresh name.lexeme) :=
  ((declare name).seq (define name.lexeme)).weaken And.left

theorem enterWith (name : String) :
    Checks none Γ (fun r => r.enter.define name) none ([name] :: Γ) [] True := by
  refine moves (fun r => (errors_mark r.enter name true).1)
    (fun r => (errors_mark r.enter name true).2) fun r tracks => ?_
  have inner : Tracks none ([] :: Γ) (.empty :: r.scopes) :=
    .scope nofun (fun _ => by simp) tracks
  exact inner.insert name true

theorem occurrence (id : Nat) (name : Token) :
    Checks pending Γ (fun r => r.occurrence id name) pending Γ
      [⟨id, name, Γ.distance? name.lexeme⟩] True := by
  intro r
  beta_reduce
  cases found : r.distance? name.lexeme with
  | none =>
    have step : r.occurrence id name = r := by simp [Resolution.occurrence, found]
    refine ⟨[], by rw [step, List.append_nil], fun _ tracks => ?_⟩
    rw [step]
    have same : Γ.distance? name.lexeme = none := (tracks.findIdx? name.lexeme).symm.trans found
    rw [same]
    exact ⟨tracks, rfl, trivial⟩
  | some distance =>
    have step : r.occurrence id name = { r with locals := r.locals.insert id distance } := by
      simp [Resolution.occurrence, found]
    refine ⟨[], by rw [step, List.append_nil], fun _ tracks => ?_⟩
    rw [step]
    have same : Γ.distance? name.lexeme = some distance :=
      (tracks.findIdx? name.lexeme).symm.trans found
    rw [same]
    exact ⟨tracks, rfl, trivial⟩

theorem notPending (name : Token) :
    Checks pending Γ
      (fun r => r.reportIf (r.isPending name.lexeme) .ownInitializer name) pending Γ []
      (pending ≠ some name.lexeme) := by
  refine reportIf _ _ fun r tracks free => ?_
  generalize hs : r.scopes = tables at tracks
  cases tracks with
  | globals => exact nofun
  | scope declared entries rest =>
    rintro rfl
    have member := declared name.lexeme rfl
    simp [Resolution.isPending, hs, entries, member] at free

end Checks

end Lox
