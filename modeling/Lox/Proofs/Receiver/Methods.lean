import Lox.Proofs.Receiver.Steps

namespace Lox.Lexical

variable {records : Records} {t : Tracked} {Γ : Scopes} {env : Env} {own : Option Self}

theorem findMethod_eq (name : String) :
    (c : Class) → c.findMethod name = (findDeclared name c).map Prod.fst
  | ⟨_, _, none, methods⟩ => by
    rw [Class.findMethod, findDeclared]
    cases methods.get? name <;> rfl
  | ⟨_, _, some superclass, methods⟩ => by
    rw [Class.findMethod, findDeclared]
    cases methods.get? name with
    | some method => rfl
    | none => exact findMethod_eq name superclass

theorem ClassKnows.mk' {store : Store} {superclass : Option Class} {methods : Table Closure}
    (id : Nat) (className : String) (inherited : ∀ c ∈ superclass, ClassKnows records store c)
    (each : ∀ name method, methods.get? name = some method →
      MethodKnows records store method superclass) :
    ClassKnows records store ⟨id, className, superclass, methods⟩ := by
  intro name method above found
  cases superclass with
  | none =>
    obtain ⟨method', found', same⟩ := Option.map_eq_some_iff.mp found
    cases same
    exact each name _ found'
  | some superclass =>
    rw [findDeclared] at found
    cases own : methods.get? name with
    | some method' =>
      rw [own] at found
      cases found
      exact each name _ own
    | none =>
      rw [own] at found
      exact inherited superclass rfl name method above found

theorem methodTable_knows {store : Store} {superclass : Option Class}
    (shows' : ShowsSuper store Γ env superclass) (methods : List FunctionDecl)
    (resolved : ∀ d ∈ methods, Stmt.FunctionResolved records (["this"] :: Γ) d) (name : String) :
    ∀ method, (Run.methodTable env methods).get? name = some method →
      MethodKnows records store method superclass := by
  intro method found
  obtain ⟨d, member, -, rfl⟩ := Run.methodTable_get? found
  exact ⟨Γ, shows', resolved d member⟩

namespace Agrees

theorem readReceiver (shows' : Shows t.machine.store Γ env own) {id d : Nat} {keyword : Token}
    (spelled : keyword.lexeme = "this") (found : Γ.distance? "this" = some d)
    (known : records id keyword (some d)) (cause : RuntimeError.Cause) :
    Agrees records t (Run.readVariable id keyword env) (Lexical.readReceiver own cause keyword)
      (Knows records) := by
  obtain ⟨s, rfl, bound⟩ := shows'.receiver d found
  intro sound
  have distance := sound.locals id keyword d known
  have ends : Run.readVariable id keyword env t.machine = .ok s.receiver t.machine := by
    simp [Run.readVariable, distance, spelled, bound]
  obtain ⟨scope, -, binding⟩ := Option.bind_eq_some_iff.mp bound
  rw [ends]
  exact ⟨rfl, rfl, .refl t, sound, sound.bindings scope _ _ binding⟩

theorem boundReceiver {closure : Closure}
    (knows : FunctionKnows records t.machine.store closure own Γ)
    (isInitializer : closure.isInitializer = true) (paren : Token) :
    Agrees records t (Run.boundReceiver closure paren)
      (Lexical.readReceiver own .initializerUnbound paren) (Knows records) := by
  obtain ⟨s, rfl, bound⟩ := knows.shows'.receiver 0 (knows.receiver isInitializer)
  intro sound
  have ends : Run.boundReceiver closure paren t.machine = .ok s.receiver t.machine := by
    simp [Run.boundReceiver, Run.read, Bind.bind, EStateM.bind, bound]
    rfl
  obtain ⟨scope, -, binding⟩ := Option.bind_eq_some_iff.mp bound
  rw [ends]
  exact ⟨rfl, rfl, .refl t, sound, sound.bindings scope _ _ binding⟩

theorem newFunction {closure : Closure}
    (knows : FunctionKnows records t.machine.store closure own Γ) :
    Agrees records t (Run.newFunction closure) (Lexical.newFunction own closure)
      (Knows records) := by
  intro sound
  let id := t.machine.store.nextIdentity
  let t' : Tracked :=
    { machine := { t.machine with store := t.machine.store.newIdentity.2 }
      selves := fun other => if other = id then own else t.selves other }
  have leads : Leads t t' :=
    ⟨rfl, fun _ _ _ _ found => found, Nat.le_succ _, fun other old =>
      if_neg (Nat.ne_of_lt old)⟩
  have sound' : Sound records t' :=
    sound.step leads (fun _ _ _ found => .inl found) fun _ _ _ found => .inl found
  have self : t'.selves id = own := if_pos rfl
  have ends : Lexical.newFunction own closure t = .ok (.function id closure) t' := rfl
  rw [ends]
  exact ⟨rfl, rfl, leads, sound', Nat.lt_succ_self id, Γ, self ▸ knows.mono leads.later⟩

theorem bindReceiver {method : Closure} {superclass : Option Class} (object : Nat) {c : Class}
    (knows : MethodKnows records t.machine.store method superclass)
    (known : ClassKnows records t.machine.store c) :
    Agrees records t (Run.bindReceiver method (.object object c))
      (lift (Run.bindReceiver method (.object object c))) fun t' bound =>
        ∃ Γ, FunctionKnows records t'.machine.store bound (some ⟨object, c, superclass⟩) Γ := by
  rw [Run.bindReceiver_eq, lift_bind]
  refine (ownScope method.env "this" (v := .object object c) known).bind
    fun t' inner leads made => ?_
  obtain ⟨scope, rfl, bound⟩ := made
  obtain ⟨Γ, shows', resolved⟩ := knows
  refine pure ⟨["this"] :: Γ, ?_, resolved, fun _ => rfl⟩
  exact Shows.bind (shows'.mono leads.later) bound

theorem bound {method : Closure} {superclass : Option Class} (object : Nat) {c : Class}
    (knows : MethodKnows records t.machine.store method superclass)
    (known : ClassKnows records t.machine.store c) :
    Agrees records t
      (do
        let bound ← Run.bindReceiver method (.object object c)
        Run.newFunction bound)
      (do
        let bound ← lift (Run.bindReceiver method (.object object c))
        Lexical.newFunction (some ⟨object, c, superclass⟩) bound) (Knows records) := by
  refine (bindReceiver object knows known).bind fun t' bound _ made => ?_
  obtain ⟨Γ, knows'⟩ := made
  exact newFunction knows'

theorem property (object : Nat) {c : Class} (known : ClassKnows records t.machine.store c)
    (name : Token) :
    Agrees records t (Run.property object c name) (Lexical.property object c name)
      (Knows records) := by
  simp only [Run.property_eq, Lexical.property]
  refine (read _).bind fun t' field _ same => ?_
  obtain ⟨rfl, rfl⟩ := same
  cases found : t'.machine.store.field? object name.lexeme with
  | some value => exact fun sound => pure (sound.fields object _ value found) sound
  | none =>
    dsimp only
    rw [findMethod_eq]
    cases method : findDeclared name.lexeme c with
    | some declared =>
      obtain ⟨method, superclass⟩ := declared
      exact bound object (known _ _ _ ‹_›) known
    | none => exact stop _

theorem superMethod (shows' : Shows t.machine.store Γ env own) {id d : Nat} {keyword : Token}
    (found : Γ.distance? "super" = some (d + 1)) (found' : Γ.distance? "this" = some d)
    (known : records id keyword (some (d + 1))) (method : Token) :
    Agrees records t (Run.superMethod id keyword method env)
      (Lexical.superMethod own keyword method) (Knows records) := by
  obtain ⟨s, c, rfl, inherits, boundSuper⟩ := shows'.superclass d found found'
  obtain ⟨s', same, boundThis⟩ := shows'.receiver d found'
  cases same
  obtain ⟨object, objectClass, superclass⟩ := s
  cases inherits
  intro sound
  have distance := sound.locals id keyword (d + 1) known
  have knows {d : Nat} {name : String} {v : Value}
      (bound : t.machine.store.getAt? env d name = some v) : Knows records t v := by
    obtain ⟨scope, -, binding⟩ := Option.bind_eq_some_iff.mp bound
    exact sound.bindings scope _ _ binding
  rw [Lexical.superMethod]
  cases declared : findDeclared method.lexeme c with
  | some declared' =>
    obtain ⟨found, above⟩ := declared'
    have step : Run.superMethod id keyword method env t.machine =
        (do
          let bound ← Run.bindReceiver found (.object object objectClass)
          Run.newFunction bound : Run Value) t.machine := by
      simp [Run.superMethod_eq, Run.read, Bind.bind, EStateM.bind, distance, boundSuper, boundThis,
        Self.receiver, findMethod_eq, declared]
    rw [step]
    exact bound object (knows boundSuper _ _ _ declared) (knows boundThis) sound
  | none =>
    have step : Run.superMethod id keyword method env t.machine =
        (Run.fail (.undefinedProperty method.lexeme) method : Run Value) t.machine := by
      simp [Run.superMethod_eq, Run.read, Bind.bind, EStateM.bind, distance, boundSuper, boundThis,
        Self.receiver, findMethod_eq, declared]
    rw [step]
    exact stop _ sound

end Agrees

end Lox.Lexical
