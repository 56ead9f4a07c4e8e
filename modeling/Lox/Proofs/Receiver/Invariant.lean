import Lox.Proofs.Receiver.Lexical
import Lox.Proofs.Evaluation.Store
import Lox.Proofs.Resolution.Sound

namespace Lox.Lexical

/-- The scopes around a place hold, at the lexical distances, what `this` and `super` denote. -/
structure Shows (store : Store) (Γ : Scopes) (env : Env) (own : Option Self) : Prop where
  receiver : ∀ d, Γ.distance? "this" = some d →
    ∃ s, own = some s ∧ store.getAt? env d "this" = some s.receiver
  superclass : ∀ d, Γ.distance? "super" = some (d + 1) → Γ.distance? "this" = some d →
    ∃ s c, own = some s ∧ s.superclass = some c ∧
      store.getAt? env (d + 1) "super" = some (.classValue c)

/-- The same for the methods of a class, which have no receiver yet. -/
def ShowsSuper (store : Store) (Γ : Scopes) (env : Env) (superclass : Option Class) : Prop :=
  Γ.distance? "super" = some 0 →
    ∃ c, superclass = some c ∧ store.getAt? env 0 "super" = some (.classValue c)

def Later (store store' : Store) : Prop :=
  ∀ scope name v, ¬ IsPlain name → store.binding? scope name = some v →
    store'.binding? scope name = some v

theorem not_isPlain_this : ¬ IsPlain "this" := fun plain => plain.1 rfl

theorem not_isPlain_super : ¬ IsPlain "super" := fun plain => plain.2 rfl

namespace Later

variable {store store' store'' : Store}

theorem refl (store : Store) : Later store store := fun _ _ _ _ found => found

theorem trans (first : Later store store') (second : Later store' store'') :
    Later store store'' :=
  fun scope name v special found =>
    second scope name v special (first scope name v special found)

theorem getAt? (h : Later store store') {env : Env} {d : Nat} {name : String} {v : Value}
    (special : ¬ IsPlain name) (found : store.getAt? env d name = some v) :
    store'.getAt? env d name = some v := by
  obtain ⟨scope, here, bound⟩ := Option.bind_eq_some_iff.mp found
  exact Option.bind_eq_some_iff.mpr ⟨scope, here, h scope name v special bound⟩

theorem define {name : String} (plain : IsPlain name) (scope : Nat) (value : Value) :
    Later store (store.define scope name value) := by
  intro other name' v special found
  rw [Store.binding?_define_of_ne _ value, found]
  rintro ⟨-, rfl⟩
  exact special plain

theorem openScope (name : String) (value : Value) :
    Later store (store.newScope.2.define store.newScope.1 name value) := by
  intro scope name' v _ found
  have apart : scope ≠ store.newScope.1 := by
    rintro rfl
    have absent : store.binding? store.newScope.1 name' = none :=
      Store.binding?_of_size_le store name' (Nat.le_refl _)
    rw [absent] at found
    cases found
  rw [Store.binding?_define_of_ne _ value fun same => apart same.1, Store.binding?_newScope, found]

end Later

namespace Shows

variable {store store' : Store} {Γ : Scopes} {env : Env} {own : Option Self}

theorem mono (h : Shows store Γ env own) (later : Later store store') :
    Shows store' Γ env own where
  receiver d found := by
    obtain ⟨s, known, bound⟩ := h.receiver d found
    exact ⟨s, known, later.getAt? not_isPlain_this bound⟩
  superclass d found found' := by
    obtain ⟨s, c, known, inherits, bound⟩ := h.superclass d found found'
    exact ⟨s, c, known, inherits, later.getAt? not_isPlain_super bound⟩

theorem globals : Shows store [] env own := ⟨nofun, nofun⟩

theorem push (h : Shows store Γ env own) {names : List String} (plain : ∀ n ∈ names, IsPlain n)
    (scope : Nat) : Shows store (names :: Γ) (scope :: env) own := by
  have noThis : "this" ∉ names := fun member => (plain _ member).1 rfl
  have noSuper : "super" ∉ names := fun member => (plain _ member).2 rfl
  refine ⟨fun d found => ?_, fun d found found' => ?_⟩
  · rw [Scopes.distance?_cons, if_neg noThis] at found
    obtain ⟨d, inner, rfl⟩ := Option.map_eq_some_iff.mp found
    exact h.receiver d inner
  · rw [Scopes.distance?_cons, if_neg noThis] at found'
    rw [Scopes.distance?_cons, if_neg noSuper] at found
    obtain ⟨d, inner, rfl⟩ := Option.map_eq_some_iff.mp found'
    obtain ⟨d', inner', same⟩ := Option.map_eq_some_iff.mp found
    obtain rfl : d' = d + 1 := Nat.succ.inj same
    exact h.superclass d inner' inner

theorem declare (h : Shows store Γ env own) {name : String} (plain : IsPlain name) :
    Shows store (Γ.declare name) env own := by
  have this := Encloses.distance?_declare plain.1.symm Γ
  have super := Encloses.distance?_declare plain.2.symm Γ
  exact ⟨fun d found => h.receiver d (this ▸ found),
    fun d found found' => h.superclass d (super ▸ found) (this ▸ found')⟩

theorem bind {self : Self} (h : ShowsSuper store Γ env self.superclass) {scope : Nat}
    (bound : store.binding? scope "this" = some self.receiver) :
    Shows store (["this"] :: Γ) (scope :: env) (some self) := by
  refine ⟨fun d found => ?_, fun d found found' => ?_⟩
  · obtain rfl : 0 = d := by simpa [Scopes.distance?_cons] using found
    exact ⟨self, rfl, bound⟩
  · obtain rfl : 0 = d := by simpa [Scopes.distance?_cons] using found'
    have outside : Γ.distance? "super" = some 0 := by simpa [Scopes.distance?_cons] using found
    obtain ⟨c, inherits, known⟩ := h outside
    exact ⟨self, c, rfl, inherits, known⟩

end Shows

namespace ShowsSuper

variable {store store' : Store} {Γ : Scopes} {env : Env} {superclass : Option Class}

theorem mono (h : ShowsSuper store Γ env superclass) (later : Later store store') :
    ShowsSuper store' Γ env superclass := by
  intro found
  obtain ⟨c, inherits, bound⟩ := h found
  exact ⟨c, inherits, later.getAt? not_isPlain_super bound⟩

theorem plain (h : ∀ names ∈ Γ.head?, ∀ n ∈ names, IsPlain n) : ShowsSuper store Γ env none := by
  intro found
  cases Γ with
  | nil => cases found
  | cons names Γ =>
    have noSuper : "super" ∉ names := fun member => (h names rfl _ member).2 rfl
    simp [Scopes.distance?_cons, noSuper] at found

theorem subclass {scope : Nat} {c : Class}
    (bound : store.binding? scope "super" = some (.classValue c)) :
    ShowsSuper store (["super"] :: Γ) (scope :: env) (some c) :=
  fun _ => ⟨c, rfl, bound⟩

end ShowsSuper

/-- An initializer has its receiver in its innermost scope. -/
structure FunctionKnows (records : Records) (store : Store) (closure : Closure)
    (own : Option Self) (Γ : Scopes) : Prop where
  shows' : Shows store Γ closure.env own
  resolved : Stmt.FunctionResolved records Γ closure.declaration
  receiver : closure.isInitializer = true → Γ.distance? "this" = some 0

def MethodKnows (records : Records) (store : Store) (method : Closure)
    (superclass : Option Class) : Prop :=
  ∃ Γ, ShowsSuper store Γ method.env superclass ∧
    Stmt.FunctionResolved records (["this"] :: Γ) method.declaration

def ClassKnows (records : Records) (store : Store) (c : Class) : Prop :=
  ∀ name method superclass, findDeclared name c = some (method, superclass) →
    MethodKnows records store method superclass

def Knows (records : Records) (t : Tracked) : Value → Prop
  | .function id closure => id < t.machine.store.nextIdentity ∧
    ∃ Γ, FunctionKnows records t.machine.store closure (t.selves id) Γ
  | .classValue c | .object _ c => ClassKnows records t.machine.store c
  | _ => True

/-- Where a function in a method finds `this` and `super` at the distances on record, there is what
it has taken along. That stays so, because programs define no such names. -/
structure Sound (records : Records) (t : Tracked) : Prop where
  locals : ∀ id token d, records id token (some d) → t.machine.locals[id]? = some d
  bindings : ∀ scope name v, t.machine.store.binding? scope name = some v → Knows records t v
  fields : ∀ object name v, t.machine.store.field? object name = some v → Knows records t v

structure Leads (t t' : Tracked) : Prop where
  locals : t'.machine.locals = t.machine.locals
  later : Later t.machine.store t'.machine.store
  identities : t.machine.store.nextIdentity ≤ t'.machine.store.nextIdentity
  selves : ∀ id, id < t.machine.store.nextIdentity → t'.selves id = t.selves id

namespace Leads

variable {t t' t'' : Tracked}

theorem refl (t : Tracked) : Leads t t := ⟨rfl, .refl _, Nat.le_refl _, fun _ _ => rfl⟩

theorem trans (first : Leads t t') (second : Leads t' t'') : Leads t t'' where
  locals := second.locals.trans first.locals
  later := first.later.trans second.later
  identities := Nat.le_trans first.identities second.identities
  selves id old :=
    (second.selves id (Nat.lt_of_lt_of_le old first.identities)).trans (first.selves id old)

end Leads

section Mono

variable {records : Records} {t t' : Tracked}

theorem FunctionKnows.mono {store store' : Store} {closure : Closure} {own : Option Self}
    {Γ : Scopes} (h : FunctionKnows records store closure own Γ) (later : Later store store') :
    FunctionKnows records store' closure own Γ :=
  { h with shows' := h.shows'.mono later }

theorem MethodKnows.mono {store store' : Store} {method : Closure} {superclass : Option Class}
    (h : MethodKnows records store method superclass) (later : Later store store') :
    MethodKnows records store' method superclass := by
  obtain ⟨Γ, shows', resolved⟩ := h
  exact ⟨Γ, shows'.mono later, resolved⟩

theorem ClassKnows.mono {store store' : Store} {c : Class} (h : ClassKnows records store c)
    (later : Later store store') : ClassKnows records store' c :=
  fun name method superclass found => (h name method superclass found).mono later

theorem Knows.mono {v : Value} (h : Knows records t v) (leads : Leads t t') :
    Knows records t' v := by
  cases v with
  | function id closure =>
    obtain ⟨old, Γ, knows⟩ := h
    refine ⟨Nat.lt_of_lt_of_le old leads.identities, Γ, ?_⟩
    rw [leads.selves id old]
    exact knows.mono leads.later
  | classValue c => exact ClassKnows.mono h leads.later
  | object id c => exact ClassKnows.mono h leads.later
  | _ => trivial

theorem Sound.step (sound : Sound records t) (leads : Leads t t')
    (bindings : ∀ scope name v, t'.machine.store.binding? scope name = some v →
      t.machine.store.binding? scope name = some v ∨ Knows records t v)
    (fields : ∀ object name v, t'.machine.store.field? object name = some v →
      t.machine.store.field? object name = some v ∨ Knows records t v) : Sound records t' where
  locals id token d recorded := by
    rw [leads.locals]
    exact sound.locals id token d recorded
  bindings scope name v found := by
    rcases bindings scope name v found with old | known
    · exact (sound.bindings scope name v old).mono leads
    · exact known.mono leads
  fields object name v found := by
    rcases fields object name v found with old | known
    · exact (sound.fields object name v old).mono leads
    · exact known.mono leads

end Mono

theorem Knows.grow {records records' : Records} (grows : records.Grow records') {t : Tracked}
    {v : Value} (h : Knows records t v) : Knows records' t v := by
  have classes (c : Class) (knows : ClassKnows records t.machine.store c) :
      ClassKnows records' t.machine.store c := by
    intro name method superclass found
    obtain ⟨Γ, shows', resolved⟩ := knows name method superclass found
    exact ⟨Γ, shows', Stmt.FunctionResolved.mono grows _ resolved⟩
  cases v with
  | function id closure =>
    obtain ⟨old, Γ, knows⟩ := h
    exact ⟨old, Γ, { knows with resolved := Stmt.FunctionResolved.mono grows _ knows.resolved }⟩
  | classValue c => exact classes c h
  | object id c => exact classes c h
  | _ => trivial

end Lox.Lexical
