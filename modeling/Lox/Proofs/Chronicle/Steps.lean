import Lox.Proofs.Chronicle.Invariant

namespace Lox.Chronicle

open Lexical (Later)
open Logging (silent silent_bind)

variable {α β : Type} {s : Logged Entry}

def Ends (s : Logged Entry) (Q : Logged Entry → α → Prop) :
    EStateM.Result Stop (Logged Entry) α → Prop
  | .ok a s' => Leads s s' ∧ Sound s' ∧ Q s' a
  | .error _ s' => Leads s s' ∧ Sound s'

/-- What is known stays known, and something is known of the result. -/
def Keeps (s : Logged Entry) (x : Logging Entry α) (Q : Logged Entry → α → Prop) : Prop :=
  Sound s → Ends s Q (x s)

namespace Keeps

variable {x : Logging Entry α} {f : α → Logging Entry β} {Q Q' : Logged Entry → α → Prop}
  {R : Logged Entry → β → Prop}

theorem pure {a : α} (h : Q s a) : Keeps s (Pure.pure a) Q := fun sound => ⟨.refl s, sound, h⟩

theorem weaken (h : Keeps s x Q) (implies : ∀ s' a, Leads s s' → Q s' a → Q' s' a) :
    Keeps s x Q' := by
  intro sound
  have ends := h sound
  cases result : x s with
  | ok a s' =>
    rw [result] at ends
    exact ⟨ends.1, ends.2.1, implies s' a ends.1 ends.2.2⟩
  | error reason s' =>
    rw [result] at ends
    exact ends

theorem bind (first : Keeps s x Q)
    (second : ∀ s' a, Leads s s' → Q s' a → Keeps s' (f a) R) : Keeps s (x >>= f) R := by
  intro sound
  have start := first sound
  simp only [Bind.bind, EStateM.bind]
  cases result : x s with
  | error reason s' =>
    rw [result] at start
    exact start
  | ok a s' =>
    rw [result] at start
    obtain ⟨leads, sound', holds⟩ := start
    have rest := second s' a leads holds sound'
    simp only
    cases result' : f a s' with
    | ok b s'' =>
      rw [result'] at rest
      exact ⟨leads.trans rest.1, rest.2⟩
    | error reason s'' =>
      rw [result'] at rest
      exact ⟨leads.trans rest.1, rest.2⟩

theorem ofSound (h : Sound s → Keeps s x Q) : Keeps s x Q := fun sound => h sound sound

theorem step {y : Run α} {a : α} {m : Machine} (ends : y s.machine = .ok a m)
    (leads : Leads s { s with machine := m }) (sound : Sound s → Sound { s with machine := m })
    (holds : Sound s → Q { s with machine := m } a) : Keeps s (silent y) Q := by
  intro start
  have both : (silent y : Logging Entry α) s = .ok a { s with machine := m } := by
    simp only [silent, ends]
  rw [both]
  exact ⟨leads, sound start, holds start⟩

theorem fails {y : Run α} {reason : Stop} (ends : y s.machine = .error reason s.machine) :
    Keeps s (silent y) Q := by
  intro sound
  have both : (silent y : Logging Entry α) s = .error reason s := by simp only [silent, ends]
  rw [both]
  exact ⟨.refl s, sound⟩

theorem stop (reason : Stop) : Keeps s (silent (Run.stop reason : Run α)) Q := fails rfl

theorem read (f : Machine → α) :
    Keeps s (silent (Run.read f)) fun s' a => s' = s ∧ a = f s.machine :=
  step rfl (.refl s) (fun sound => sound) fun _ => ⟨rfl, rfl⟩

theorem around {activity : Activity α} {entry : Logged Entry → α → Machine → Entry}
    (known : entry? activity = some entry) (h : Keeps s x Q)
    (fact : ∀ s' a, Leads s s' → Sound s' → Q s' a →
      Fact s'.machine.store s'.log (entry s a s'.machine))
    (older : ∀ s' a v, Q s' a → entry s a s'.machine = .computed v → Older s'.machine.store v)
    (next : ∀ s' a scope, Leads s s' → Q s' a → (entry s a s'.machine).opened? = some scope →
      (∀ other ∈ opened s'.log, other < scope) ∧ scope < s'.machine.store.scopes.size)
    (holds : ∀ s' a, Leads s s' → Q s' a →
      Q' { s' with log := s'.log ++ [entry s a s'.machine] } a) :
    Keeps s (runner.around activity x) Q' := by
  intro sound
  have ends := h sound
  change Ends s Q' (Chronicle.around activity x s)
  simp only [Chronicle.around, known, Logging.noting]
  cases result : x s with
  | ok a s' =>
    rw [result] at ends
    obtain ⟨leads, sound', post⟩ := ends
    exact ⟨leads.note _, sound'.note (fact s' a leads sound' post) (fun v => older s' a v post)
      (fun scope => next s' a scope leads post), holds s' a leads post⟩
  | error reason s' =>
    rw [result] at ends
    exact ends

variable {env : Env} {name : String} {v : Value}

theorem onStore {f : Store → α × Store} (later : Later s.machine.store (f s.machine.store).2)
    (scopes : s.machine.store.scopes.size ≤ (f s.machine.store).2.scopes.size)
    (objects : s.machine.store.objects.size ≤ (f s.machine.store).2.objects.size)
    (bindings : ∀ scope name v, (f s.machine.store).2.binding? scope name = some v →
      s.machine.store.binding? scope name = some v ∨ Known s v)
    (fields : ∀ object name v, (f s.machine.store).2.field? object name = some v →
      s.machine.store.field? object name = some v ∨ Known s v)
    (holds : Q { s with machine := { s.machine with store := (f s.machine.store).2 } }
      (f s.machine.store).1) : Keeps s (silent (Run.onStore f)) Q := by
  have leads : Leads s { s with machine := { s.machine with store := (f s.machine.store).2 } } :=
    ⟨later, scopes, objects, List.prefix_refl _⟩
  exact step rfl leads (fun sound => sound.step leads rfl bindings fields) fun _ => holds

theorem defineIn (scope : Nat) (plain : IsPlain name) (known : Known s v) :
    Keeps s (silent (Run.onStore fun store => ((), store.define scope name v)))
      fun _ _ => True := by
  refine onStore (.define plain scope v) (by simp) (Nat.le_refl _)
    (fun scope' name' v' found => ?_) (fun _ _ _ found => .inl found) trivial
  rw [Store.binding?_define] at found
  split at found
  · cases found
    exact .inr known
  · exact .inl found

theorem define (env : Env) (plain : IsPlain name) (known : Known s v) :
    Keeps s (silent (Run.define env name v)) fun _ _ => True := by
  cases env with
  | nil => exact pure trivial
  | cons scope outer => exact defineIn scope plain known

theorem openScope (env : Env) :
    Keeps s (silent (Run.openScope env)) fun s' env' => s'.log = s.log ∧
      env' = s.machine.store.scopes.size :: env ∧
        s.machine.store.scopes.size < s'.machine.store.scopes.size := by
  let store := s.machine.store.newScope.2
  have leads : Leads s { s with machine := { s.machine with store := store } } :=
    ⟨fun _ _ _ _ found => by rwa [Store.binding?_newScope], by simp [store], Nat.le_refl _,
      List.prefix_refl _⟩
  refine step (m := { s.machine with store := store }) rfl leads
    (fun sound => sound.step leads rfl (fun scope name v found => .inl ?_)
      fun _ _ _ found => .inl found) fun _ => ⟨rfl, rfl, by simp [store]⟩
  simp only [store] at found
  rwa [Store.binding?_newScope] at found

theorem ownScope (env : Env) (name : String) (known : Known s v) :
    Keeps s (silent (Run.ownScope env name v))
      fun s' inner => s'.log = s.log ∧ inner = s.machine.store.scopes.size :: env ∧
        s.machine.store.scopes.size < s'.machine.store.scopes.size ∧
          s'.machine.store.binding? s.machine.store.scopes.size name = some v := by
  let scope := s.machine.store.scopes.size
  let store := s.machine.store.newScope.2.define scope name v
  have leads : Leads s { s with machine := { s.machine with store := store } } :=
    ⟨.openScope name v, by simp [store, scope], Nat.le_refl _, List.prefix_refl _⟩
  refine step (m := { s.machine with store := store }) rfl leads
    (fun sound => sound.step leads rfl (fun other name' v' found => ?_)
      fun _ _ _ found => .inl found) fun _ =>
    ⟨rfl, rfl, by simp [store, scope], by simp [store, scope, Store.binding?_define]⟩
  simp only [store] at found
  rw [Store.binding?_define, Store.binding?_newScope] at found
  split at found
  · cases found
    exact .inr known
  · exact .inl found

theorem newObject : Keeps s (silent (Run.onStore Store.newObject)) fun s' id =>
    id = s.machine.store.objects.size ∧ id < s'.machine.store.objects.size :=
  onStore (fun _ _ _ _ found => found) (Nat.le_refl _) (by simp [Store.newObject])
    (fun _ _ _ found => .inl found) (fun _ _ _ found => .inl (by rwa [Store.field?_newObject] at found))
    ⟨rfl, by simp [Store.newObject]⟩

theorem newIdentity : Keeps s (silent (Run.onStore Store.newIdentity)) fun _ _ => True :=
  onStore (fun _ _ _ _ found => found) (Nat.le_refl _) (Nat.le_refl _)
    (fun _ _ _ found => .inl found) (fun _ _ _ found => .inl found) trivial

theorem setField (object : Nat) (name : String) (known : Known s v) :
    Keeps s (silent (Run.onStore fun store => ((), store.setField object name v)))
      fun _ _ => True := by
  refine onStore (fun _ _ _ _ found => found) (Nat.le_refl _) (by simp [Store.setField])
    (fun _ _ _ found => .inl found) (fun object' name' v' found => ?_) trivial
  rw [Store.field?_setField] at found
  split at found
  · cases found
    exact .inr known
  · exact .inl found

theorem write (text : String) : Keeps s (silent (Run.write text)) fun _ _ => True := by
  by_cases accepts : s.machine.sink.accepts text = true
  · have ends : Run.write text s.machine =
        .ok () { s.machine with sink := s.machine.sink.append text } := by
      rw [Run.write, if_pos accepts]
    have leads : Leads s
        { s with machine := { s.machine with sink := s.machine.sink.append text } } :=
      ⟨.refl _, Nat.le_refl _, Nat.le_refl _, List.prefix_refl _⟩
    exact step ends leads (fun sound => sound.step leads rfl (fun _ _ _ found => .inl found)
      fun _ _ _ found => .inl found) fun _ => trivial
  · exact fails (by rw [Run.write, if_neg accepts])

theorem printLine (text : String) : Keeps s (silent (Run.printLine text)) fun _ _ => True := by
  rw [Run.printLine, silent_bind]
  exact (write text).bind fun _ _ _ _ => write "\n"

theorem readClock (paren : Token) : Keeps s (silent (Run.readClock paren)) Known := by
  have leads : Leads s { s with machine := { s.machine with clock := s.machine.clock.next } } :=
    ⟨.refl _, Nat.le_refl _, Nat.le_refl _, List.prefix_refl _⟩
  have tick : Keeps s (silent Run.tick) fun _ _ => True :=
    step rfl leads (fun sound => sound.step leads rfl (fun _ _ _ found => .inl found)
      fun _ _ _ found => .inl found) fun _ => trivial
  rw [Run.readClock, silent_bind]
  refine tick.bind fun s' reading _ _ => ?_
  cases reading with
  | ok seconds => exact pure trivial
  | error reason => exact stop _

theorem ofExcept {result : Except RuntimeError Value}
    (known : ∀ v, result = .ok v → Known s v) : Keeps s (silent (Run.ofExcept result)) Known := by
  cases result with
  | ok v => exact pure (known v rfl)
  | error error => exact stop _

theorem checkCall (callee : Value) (paren : Token) (given : Nat) :
    Keeps s (silent (Run.checkCall callee paren given)) fun _ _ => True := by
  unfold Run.checkCall
  split
  · exact stop _
  · split
    · exact pure trivial
    · exact stop _

theorem requireClass (token : Token) (known : Known s v) :
    Keeps s (silent (Run.requireClass token v)) fun _ c => ClassSound c := by
  cases v with
  | classValue c => exact pure known
  | _ => exact stop _

theorem lookup (env : Env) (d : Nat) (name : String) :
    Keeps s (silent (Run.read fun m => m.store.getAt? env d name)) fun s' found =>
      s' = s ∧ found = s.machine.store.getAt? env d name ∧ ∀ v, found = some v → Known s' v := by
  refine step rfl (.refl s) (fun sound => sound) fun sound => ⟨rfl, rfl, fun v found => ?_⟩
  obtain ⟨scope, -, bound⟩ := Option.bind_eq_some_iff.mp found
  exact sound.bindings scope name v bound

theorem readVariable (id : Nat) (name : Token) (env : Env) :
    Keeps s (silent (Run.readVariable id name env)) Known := by
  rcases Run.readVariable_cases id name env s.machine with
    ⟨v, scope, -, bound, ends⟩ | ⟨reason, ends⟩
  · exact step ends (.refl s) (fun sound => sound) fun sound => sound.bindings scope _ v bound
  · exact fails ends

theorem writeVariable (id : Nat) {name : Token} (env : Env) (plain : IsPlain name.lexeme)
    (known : Known s v) : Keeps s (silent (Run.writeVariable id name env v)) fun _ _ => True := by
  rw [Run.writeVariable, silent_bind]
  refine (read _).bind fun s' distance _ same => ?_
  obtain ⟨rfl, -⟩ := same
  cases distance with
  | some d =>
    dsimp only
    split
    · exact defineIn _ plain known
    · exact stop _
  | none =>
    dsimp only
    rw [silent_bind]
    refine (read _).bind fun s' scope _ same => ?_
    obtain ⟨rfl, -⟩ := same
    cases scope with
    | some scope => exact defineIn _ plain known
    | none => exact stop _

theorem bindParams (env : Env) (params : List Token) (arguments : List Value)
    (plain : ∀ param ∈ params, IsPlain param.lexeme)
    (known : ∀ argument ∈ arguments, Known s argument) :
    Keeps s (silent (Run.bindParams env params arguments)) fun _ _ => True := by
  induction params generalizing s arguments with
  | nil => exact pure trivial
  | cons param params ih =>
    cases arguments with
    | nil => exact pure trivial
    | cons argument arguments =>
      obtain ⟨plain, plain'⟩ := List.forall_mem_cons.mp plain
      obtain ⟨known, known'⟩ := List.forall_mem_cons.mp known
      rw [Run.bindParams, silent_bind]
      exact (define env plain known).bind fun s' _ leads _ =>
        ih arguments plain' fun argument member => (known' argument member).mono leads

variable {c : Class}

theorem newFunction {closure : Closure} (known : FunctionKnown s.log closure) :
    Keeps s (silent (Run.newFunction closure)) Known := by
  rw [Run.newFunction, silent_bind]
  exact newIdentity.bind fun s' id leads _ => pure (FunctionKnown.mono known leads)

theorem bindReceiver {method : Closure} (sound : MethodSound method) (known : Known s v) :
    Keeps s (runner.bindReceiver method v) fun s' closure => FunctionKnown s'.log closure := by
  have binds : Keeps s (silent (Run.bindReceiver method v)) fun s' closure =>
      s'.log = s.log ∧ closure = { method with env := s.machine.store.scopes.size :: method.env } ∧
        s.machine.store.scopes.size < s'.machine.store.scopes.size ∧
          s'.machine.store.binding? s.machine.store.scopes.size "this" = some v := by
    rw [Run.bindReceiver_eq, silent_bind]
    refine (ownScope method.env "this" known).bind fun s' inner _ made => pure ?_
    obtain ⟨sameLog, rfl, inside, bound⟩ := made
    exact ⟨sameLog, rfl, inside, bound⟩
  refine ofSound fun start => around rfl binds (fun s' closure _ _ made => ?_) nofun
    (fun s' closure scope _ made opens => ?_) fun s' closure _ made => ?_
  · exact ⟨sound, _, made.2.1, made.2.2.2⟩
  · obtain ⟨sameLog, rfl, inside, -⟩ := made
    cases opens
    rw [sameLog]
    exact ⟨start.inside, inside⟩
  · obtain ⟨-, rfl, -, -⟩ := made
    exact ⟨sound.plain, fun _ => ⟨method, v, by simp⟩⟩

theorem bound {method : Closure} {object : Nat} (sound : MethodSound method)
    (known : Known s (.object object c)) :
    Keeps s (runner.bindReceiver method (.object object c) >>= fun closure =>
      runner.step (Run.newFunction closure)) Known :=
  (bindReceiver sound known).bind fun _ _ _ made => newFunction made

theorem property {object : Nat} (known : Known s (.object object c)) (name : Token) :
    Keeps s (runner.property object c name) Known := by
  rw [Runner.property]
  refine (read fun m => m.store.field? object name.lexeme).bind fun s' field _ same => ?_
  obtain ⟨rfl, rfl⟩ := same
  cases found : s'.machine.store.field? object name.lexeme with
  | some value => exact ofSound fun sound => pure (sound.fields object _ value found)
  | none =>
    dsimp only
    cases method : c.findMethod name.lexeme with
    | some method' => exact bound (known.2 _ _ method) known
    | none => exact stop _

theorem superMethod (id : Nat) (keyword method : Token) (env : Env) :
    Keeps s (runner.superMethod id keyword method env) Known := by
  rw [Runner.superMethod]
  refine (read fun m => m.locals[id]?).bind fun s' distance _ _ => ?_
  cases distance with
  | none => exact stop _
  | some d =>
    refine (lookup env d "super").bind fun s' above _ known => ?_
    split
    next superclass =>
      have inherited : ClassSound superclass := known.2.2 _ rfl
      refine (lookup env (d - 1) "this").bind fun s' receiver _ known' => ?_
      split
      next object c' =>
        cases found : superclass.findMethod method.lexeme with
        | some method' => exact bound (inherited _ _ found) (known'.2.2 _ rfl)
        | none => exact stop _
      next => exact stop _
    next => exact stop _

theorem boundReceiver (closure : Closure) (paren : Token) :
    Keeps s (silent (Run.boundReceiver closure paren)) fun s' v =>
      s'.log = s.log ∧ Known s' v ∧ s'.machine.store.getAt? closure.env 0 "this" = some v := by
  rw [Run.boundReceiver, silent_bind]
  refine (lookup closure.env 0 "this").bind fun s' found _ known => ?_
  obtain ⟨rfl, same, known⟩ := known
  cases found with
  | none => exact stop _
  | some v => exact pure ⟨rfl, known v rfl, same.symm⟩

theorem methodScope {superclass : Option Class} (env : Env)
    (inherited : ∀ c ∈ superclass, ClassSound c) :
    Keeps s (silent (Run.methodScope env superclass)) fun _ _ => True := by
  cases superclass with
  | none => exact pure trivial
  | some c =>
    have known : Known s (.classValue c) := inherited c rfl
    exact (ownScope env "super" known).weaken fun _ _ _ _ => trivial

theorem declareClass {superclass : Option Class} (env : Env) {name : Token}
    (plain : IsPlain name.lexeme) (inherited : ∀ c ∈ superclass, ClassSound c)
    {methods : List FunctionDecl} (members : Stmt.MethodsNamesPlain methods) :
    Keeps s (silent (Run.declareClass env name superclass methods)) fun _ _ => True := by
  rw [Run.declareClass, silent_bind]
  refine (define (v := .nil) env plain trivial).bind fun s₁ _ _ _ => ?_
  rw [silent_bind]
  refine (methodScope env inherited).bind fun s₂ scope _ _ => ?_
  rw [silent_bind]
  refine newIdentity.bind fun s₃ id _ _ => ?_
  have sound : ClassSound ⟨id, name.lexeme, superclass, Run.methodTable scope methods⟩ := by
    refine Class.forall_findMethod id name.lexeme (fun method closure found => ?_) inherited
    obtain ⟨d, member, rfl, rfl⟩ := Run.methodTable_get? found
    exact ⟨rfl, Stmt.methodsNamesPlain_iff.mp members d member⟩
  exact define (v := .classValue _) env plain sound

end Keeps

end Lox.Chronicle
