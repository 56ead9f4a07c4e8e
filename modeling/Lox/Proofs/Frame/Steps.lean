import Lox.Proofs.Evaluation.Values
import Lox.Proofs.Frame.Invariant
import Lox.Proofs.Trace.Evaluation

namespace Lox.Frame

open Traced (Event Observed Tracing runner)
open Logging (silent recording silent_bind)

def declaredName : Stmt → Option String
  | .var name _ => some name.lexeme
  | .function declaration => some declaration.name.lexeme
  | .classDecl name _ _ => some name.lexeme
  | _ => none

/-- A statement adds at most the name it declares, and only to the scope it runs in. -/
def ofStatement (statement : Stmt) (env : Env) : Additions :=
  match declaredName statement with
  | some name => own env name
  | none => nothing

theorem ofStatement_iff {statement : Stmt} {env : Env} {scope : Nat} {name : String} :
    ofStatement statement env scope name ↔
      declaredName statement = some name ∧ env.head? = some scope := by
  rw [ofStatement]
  cases declaredName statement with
  | none => simp [nothing]
  | some declared => simp [own, eq_comm, and_comm]

/-- Nothing was added that the event does not account for. -/
def IsTidy : Event → Prop
  | .executed statement env _ before after => Grows (ofStatement statement env) before after
  | .called _ before after => Grows nothing before after
  | .printed _ _ => True

variable {α β : Type} {records : Records} {added added' failed failed' : Additions} {o : Observed}

structure Leads (added : Additions) (o o' : Observed) : Prop where
  grows : Grows added o.machine.store o'.machine.store
  locals : o'.machine.locals = o.machine.locals
  events : ∃ more, o'.log = o.log ++ more ∧ ∀ event ∈ more, IsTidy event

namespace Leads

variable {o' o'' : Observed}

theorem of_machine {m : Machine} (grows : Grows added o.machine.store m.store)
    (locals : m.locals = o.machine.locals) : Leads added o { o with machine := m } :=
  ⟨grows, locals, [], by simp⟩

theorem refl (added : Additions) (o : Observed) : Leads added o o :=
  of_machine (.refl _ _) rfl

theorem trans (first : Leads added o o') (second : Leads added o' o'') : Leads added o o'' := by
  obtain ⟨more, trace, tidy⟩ := first.events
  obtain ⟨more', trace', tidy'⟩ := second.events
  refine ⟨first.grows.trans second.grows, second.locals.trans first.locals, more ++ more', ?_, ?_⟩
  · rw [trace', trace, List.append_assoc]
  · intro event member
    exact (List.mem_append.mp member).elim (tidy event) (tidy' event)

theorem weaken (h : Leads added o o') (more : ∀ scope name, added scope name → added' scope name) :
    Leads added' o o' :=
  ⟨h.grows.weaken more, h.locals, h.events⟩

theorem of_event (h : Leads added o o') {event : Event} (tidy : IsTidy event) :
    Leads added o { o' with log := o'.log ++ [event] } := by
  obtain ⟨more, trace, tidy'⟩ := h.events
  refine ⟨h.grows, h.locals, more ++ [event], by simp [trace], ?_⟩
  intro e member
  rcases List.mem_append.mp member with old | new
  · exact tidy' e old
  · rwa [List.mem_singleton.mp new]

end Leads

/-- How an action ends that adds names only as it may, and what is known of its result. -/
def Ends (records : Records) (o : Observed) (added failed : Additions) (Q : Store → α → Prop) :
    EStateM.Result Stop Observed α → Prop
  | .ok a o' => Leads added o o' ∧ Sound records o'.machine ∧ Q o'.machine.store a
  | .error _ o' => Leads failed o o' ∧ Sound records o'.machine

/-- Which names an action may add if it ends well and which if it stops the run. Every statement and
call on the way adds no more than it should. -/
def Keeps (records : Records) (o : Observed) (x : Tracing α) (added failed : Additions)
    (Q : Store → α → Prop) : Prop :=
  Sound records o.machine → Ends records o added failed Q (x o)

namespace Keeps

variable {x : Tracing α} {f : α → Tracing β} {Q Q' : Store → α → Prop} {R : Store → β → Prop}

theorem pure {a : α} (h : Q o.machine.store a) :
    Keeps records o (Pure.pure a) added failed Q :=
  fun sound => ⟨.refl _ _, sound, h⟩

theorem weaken (h : Keeps records o x added failed Q)
    (more : ∀ scope name, added scope name → added' scope name)
    (more' : ∀ scope name, failed scope name → failed' scope name)
    (implies : ∀ o' a, Leads added o o' → Q o'.machine.store a → Q' o'.machine.store a) :
    Keeps records o x added' failed' Q' := by
  intro sound
  have ends := h sound
  cases result : x o with
  | ok a o' =>
    rw [result] at ends
    exact ⟨ends.1.weaken more, ends.2.1, implies o' a ends.1 ends.2.2⟩
  | error reason o' =>
    rw [result] at ends
    exact ⟨ends.1.weaken more', ends.2⟩

theorem anyway (h : Keeps records o x nothing nothing Q) : Keeps records o x added failed Q :=
  h.weaken (fun _ _ => False.elim) (fun _ _ => False.elim) fun _ _ _ holds => holds

theorem andThen (first : Keeps records o x failed failed Q)
    (second : ∀ o' a, Leads failed o o' → Q o'.machine.store a →
      Keeps records o' (f a) added failed R)
    (more : ∀ scope name, failed scope name → added scope name) :
    Keeps records o (x >>= f) added failed R := by
  intro sound
  have start := first sound
  simp only [Bind.bind, EStateM.bind]
  cases result : x o with
  | error reason o' =>
    rw [result] at start
    exact start
  | ok a o' =>
    rw [result] at start
    obtain ⟨leads, sound', holds⟩ := start
    have rest := second o' a leads holds sound'
    simp only
    cases result' : f a o' with
    | ok b o'' =>
      rw [result'] at rest
      exact ⟨(leads.weaken more).trans rest.1, rest.2⟩
    | error reason o'' =>
      rw [result'] at rest
      exact ⟨leads.trans rest.1, rest.2⟩

theorem bind (first : Keeps records o x added added Q)
    (second : ∀ o' a, Leads added o o' → Q o'.machine.store a →
      Keeps records o' (f a) added added R) : Keeps records o (x >>= f) added added R :=
  first.andThen second fun _ _ may => may

theorem finish {g : α → β} (first : Keeps records o x added failed Q)
    (implies : ∀ o' a, Leads added o o' → Q o'.machine.store a → R o'.machine.store (g a)) :
    Keeps records o (x >>= fun a => Pure.pure (g a)) added failed R := by
  intro sound
  have start := first sound
  simp only [Bind.bind, EStateM.bind]
  cases result : x o with
  | ok a o' =>
    rw [result] at start
    exact ⟨start.1, start.2.1, implies o' a start.1 start.2.2⟩
  | error reason o' =>
    rw [result] at start
    exact start

theorem step {y : Run α} {a : α} {m : Machine} (ends : y o.machine = .ok a m)
    (locals : m.locals = o.machine.locals) (grows : Grows added o.machine.store m.store)
    (sound : Sound records o.machine → Sound records m)
    (holds : Sound records o.machine → Q m.store a) :
    Keeps records o (silent y) added failed Q := by
  intro start
  have both : silent y o = .ok a { o with machine := m } := by simp only [silent, ends]
  rw [both]
  exact ⟨.of_machine grows locals, sound start, holds start⟩

theorem fails {y : Run α} {reason : Stop} (ends : y o.machine = .error reason o.machine) :
    Keeps records o (silent y) added failed Q := by
  intro sound
  have both : silent y o = .error reason o := by simp only [silent, ends]
  rw [both]
  exact ⟨.refl _ _, sound⟩

theorem stop (reason : Stop) :
    Keeps records o (silent (Run.stop reason : Run α)) added failed Q :=
  fails rfl

theorem read (f : Machine → α) : Keeps records o (silent (Run.read f)) added failed
    fun store a => store = o.machine.store ∧ a = f o.machine :=
  step rfl rfl (.refl _ _) (fun sound => sound) fun _ => ⟨rfl, rfl⟩

theorem recorded {event : Bool → Store → Store → Event} (h : Keeps records o x added failed Q)
    (ended : ∀ after, Grows added o.machine.store after →
      IsTidy (event true o.machine.store after))
    (stopped : ∀ after, Grows failed o.machine.store after →
      IsTidy (event false o.machine.store after)) :
    Keeps records o (recording event x) added failed Q := by
  intro sound
  have ends := h sound
  simp only [recording]
  cases result : x o with
  | ok a o' =>
    rw [result] at ends
    exact ⟨ends.1.of_event (ended _ ends.1.grows), ends.2⟩
  | error reason o' =>
    rw [result] at ends
    exact ⟨ends.1.of_event (stopped _ ends.1.grows), ends.2⟩

theorem called {x : Tracing Value} {Q : Store → Value → Prop} (closure : Closure)
    (h : Keeps records o x nothing nothing Q) :
    Keeps records o (runner.around (.calling closure) x) nothing nothing Q := by
  change Keeps records o (recording (fun _ => Event.called closure) x) _ _ _
  exact h.recorded (fun _ grows => grows) fun _ grows => grows

end Keeps

namespace Keeps

variable {env : Env} {name : String} {v : Value} {Q : Store → α → Prop}

theorem onStore {f : Store → α × Store} (grows : Grows added o.machine.store (f o.machine.store).2)
    (bindings : ∀ scope name v, (f o.machine.store).2.binding? scope name = some v →
      o.machine.store.binding? scope name = some v ∨ Fits records (f o.machine.store).2 v)
    (fields : ∀ object name v, (f o.machine.store).2.field? object name = some v →
      o.machine.store.field? object name = some v ∨ Fits records (f o.machine.store).2 v)
    (holds : Q (f o.machine.store).2 (f o.machine.store).1) :
    Keeps records o (silent (Run.onStore f)) added failed Q :=
  step (m := { o.machine with store := (f o.machine.store).2 }) rfl rfl grows
    (fun sound => sound.step rfl grows bindings fields) fun _ => holds

theorem defineIn {scope : Nat}
    (may : o.machine.store.binds scope name = true ∨ added scope name)
    (fits : Fits records (o.machine.store.define scope name v) v) :
    Keeps records o (silent (Run.onStore fun store => ((), store.define scope name v))) added failed
      fun store _ => store = o.machine.store.define scope name v := by
  refine onStore (.define v may) (fun scope' name' v' found => ?_)
    (fun _ _ _ found => .inl found) rfl
  rw [Store.binding?_define] at found
  split at found
  · cases found
    exact .inr fits
  · exact .inl found

theorem newObject : Keeps records o (silent (Run.onStore Store.newObject)) added failed
    fun _ _ => True :=
  onStore (.of_names (Nat.le_refl _) fun _ _ => rfl) (fun _ _ _ found => .inl found)
    (fun _ _ _ found => .inl (by rwa [Store.field?_newObject] at found)) trivial

theorem newIdentity : Keeps records o (silent (Run.onStore Store.newIdentity)) added failed
    fun _ _ => True :=
  onStore (.of_names (Nat.le_refl _) fun _ _ => rfl) (fun _ _ _ found => .inl found)
    (fun _ _ _ found => .inl found) trivial

theorem setField (object : Nat) (name : String) (fits : Fits records o.machine.store v) :
    Keeps records o (silent (Run.onStore fun store => ((), store.setField object name v)))
      added failed fun _ _ => True := by
  have grows : Grows added o.machine.store (o.machine.store.setField object name v) :=
    .of_names (Nat.le_refl _) fun _ _ => rfl
  refine onStore grows (fun _ _ _ found => .inl found) (fun object' name' v' found => ?_) trivial
  rw [Store.field?_setField] at found
  split at found
  · cases found
    exact .inr (fits.mono grows)
  · exact .inl found

theorem hide {x : Tracing α} {scope : Nat} (new : o.machine.store.scopes.size ≤ scope)
    (h : Keeps records o x (inScope scope) (inScope scope) Q) :
    Keeps records o x added failed Q := by
  intro sound
  have ends := h sound
  cases result : x o with
  | ok a o' =>
    rw [result] at ends
    exact ⟨⟨ends.1.grows.of_newScope new, ends.1.locals, ends.1.events⟩, ends.2⟩
  | error reason o' =>
    rw [result] at ends
    exact ⟨⟨ends.1.grows.of_newScope new, ends.1.locals, ends.1.events⟩, ends.2⟩

theorem openScope (env : Env) : Keeps records o (silent (Run.openScope env)) added failed
    fun store env' => env' = o.machine.store.scopes.size :: env ∧
      o.machine.store.scopes.size < store.scopes.size := by
  have grows : Grows nothing o.machine.store o.machine.store.newScope.2 := .newScope _
  refine step (m := { o.machine with store := o.machine.store.newScope.2 }) rfl rfl (.newScope _)
    (fun sound => ?_) fun _ => ⟨rfl, by simp⟩
  refine sound.step rfl grows (fun scope name v found => .inl ?_) fun _ _ _ found => .inl found
  rwa [Store.binding?_newScope] at found

theorem ownScope (env : Env) (name : String) (fits : Fits records o.machine.store v) :
    Keeps records o (silent (Run.ownScope env name v)) added failed fun store inner => ∃ scope, inner = scope :: env ∧
        scope < store.scopes.size ∧ store.binds scope name = true := by
  let scope := o.machine.store.scopes.size
  let store := o.machine.store.newScope.2.define scope name v
  have grows : ∀ added, Grows added o.machine.store store := fun _ =>
    .of_newScope (Nat.le_refl scope) ((Grows.newScope _).trans (.define v (.inr rfl)))
  have bound (other : Nat) (name' : String) : store.binding? other name' =
      if other = scope ∧ name' = name then some v else o.machine.store.binding? other name' := by
    simp [store, scope, Store.binding?_define]
  refine step (m := { o.machine with store := store }) rfl rfl (grows _) (fun sound => ?_) fun _ =>
    ⟨scope, rfl, by simp [store, scope], by simp [Store.binds, bound]⟩
  refine sound.step rfl (grows nothing) (fun other name' v' found => ?_)
    fun _ _ _ found => .inl found
  rw [show store.binding? other name' = _ from bound other name'] at found
  split at found
  · cases found
    exact .inr (fits.mono (grows nothing))
  · exact .inl found

theorem define (env : Env) (name : String)
    (fits : ∀ store, Grows (own env name) o.machine.store store →
      (∀ scope, env.head? = some scope → scope < o.machine.store.scopes.size →
        store.binds scope name = true) → Fits records store v) :
    Keeps records o (silent (Run.define env name v)) (own env name) failed
      fun store _ => ∀ scope, env.head? = some scope → scope < o.machine.store.scopes.size →
        store.binds scope name = true := by
  cases env with
  | nil => exact pure fun scope none => by cases none
  | cons scope outer =>
    have grows : Grows (own (scope :: outer) name) o.machine.store
        (o.machine.store.define scope name v) := .define v (.inr ⟨rfl, rfl⟩)
    have bound : ∀ other, (scope :: outer).head? = some other →
        other < o.machine.store.scopes.size →
        (o.machine.store.define scope name v).binds other name = true := by
      rintro other ⟨⟩ inside
      simp [Store.binds, Store.binding?_define, inside]
    refine (defineIn (.inr ⟨rfl, rfl⟩) (fits _ grows bound)).weaken (fun _ _ may => may)
      (fun _ _ may => may) fun o' _ _ same => ?_
    rw [same]
    exact bound

theorem ofExcept {result : Except RuntimeError Value}
    (fits : ∀ v, result = .ok v → Fits records o.machine.store v) :
    Keeps records o (silent (Run.ofExcept result)) added failed (Fits records) := by
  cases result with
  | ok v => exact pure (fits v rfl)
  | error error => exact stop _

theorem checkCall (callee : Value) (paren : Token) (given : Nat) :
    Keeps records o (silent (Run.checkCall callee paren given)) added failed
      fun _ _ => callee.arity? = some given := by
  unfold Run.checkCall
  split
  · exact stop _
  · rename_i expected arity
    split
    · rename_i same
      exact pure (same ▸ arity)
    · exact stop _

theorem requireClass (token : Token) (fits : Fits records o.machine.store v) :
    Keeps records o (silent (Run.requireClass token v)) added failed (ClassFits records) := by
  cases v with
  | classValue c => exact pure fits
  | _ => exact stop _

theorem write (text : String) :
    Keeps records o (silent (Run.write text)) added failed fun _ _ => True := by
  by_cases accepts : o.machine.sink.accepts text = true
  · have ends : Run.write text o.machine =
        .ok () { o.machine with sink := o.machine.sink.append text } := by
      rw [Run.write, if_pos accepts]
    refine step ends rfl (.refl _ _) (fun sound => ?_) fun _ => trivial
    exact ⟨sound.locals, sound.bindings, sound.fields⟩
  · exact fails (by rw [Run.write, if_neg accepts])

theorem printLine (text : String) :
    Keeps records o (runner.around (.printing text) (runner.step (Run.printLine text))) added failed
      fun _ _ => True := by
  have line (o : Observed) : Keeps records o (silent (Run.printLine text)) nothing nothing
      fun _ _ => True := by
    rw [Run.printLine, silent_bind]
    exact (write text).bind fun _ _ _ _ => write "\n"
  have event : Keeps records o (Logging.note (.printed text)) nothing nothing fun _ _ => True :=
    fun sound => ⟨(Leads.refl _ _).of_event trivial, sound, trivial⟩
  exact (event.bind fun o' _ _ _ => line o').anyway

theorem readClock (paren : Token) :
    Keeps records o (silent (Run.readClock paren)) added failed (Fits records) := by
  have tick (added : Additions) :
      Keeps records o (silent Run.tick) added added fun _ _ => True :=
    step (m := { o.machine with clock := o.machine.clock.next }) rfl rfl (.refl _ _)
      (fun sound => sound.step rfl (.refl nothing _) (fun _ _ _ found => .inl found)
        fun _ _ _ found => .inl found) fun _ => trivial
  rw [Run.readClock, silent_bind]
  refine ((tick nothing).bind fun o' reading _ _ => ?_).anyway
  cases reading with
  | ok seconds => exact pure trivial
  | error reason => exact stop _

theorem lookup (env : Env) (d : Nat) (name : String) :
    Keeps records o (silent (Run.read fun m => m.store.getAt? env d name)) added failed
      fun store found => ∀ v, found = some v → Fits records store v := by
  refine step rfl rfl (.refl _ _) (fun sound => sound) fun sound v found => ?_
  obtain ⟨scope, -, bound⟩ := Option.bind_eq_some_iff.mp found
  exact sound.bindings scope name v bound

theorem readVariable (id : Nat) (name : Token) (env : Env) :
    Keeps records o (silent (Run.readVariable id name env)) added failed (Fits records) := by
  cases hd : o.machine.locals[id]? with
  | some d =>
    cases hv : o.machine.store.getAt? env d name.lexeme with
    | some v =>
      have ends : Run.readVariable id name env o.machine = .ok v o.machine := by
        simp [Run.readVariable, hd, hv]
      refine step ends rfl (.refl _ _) (fun sound => sound) fun sound => ?_
      obtain ⟨scope, -, bound⟩ := Option.bind_eq_some_iff.mp hv
      exact sound.bindings scope _ v bound
    | none => exact fails (by simp [Run.readVariable, hd, hv]; rfl)
  | none =>
    cases hv : o.machine.store.get? globals name.lexeme with
    | some v =>
      have ends : Run.readVariable id name env o.machine = .ok v o.machine := by
        simp [Run.readVariable, hd, hv]
      refine step ends rfl (.refl _ _) (fun sound => sound) fun sound => ?_
      obtain ⟨scope, -, bound⟩ := Option.bind_eq_some_iff.mp hv
      exact sound.bindings scope _ v bound
    | none => exact fails (by simp [Run.readVariable, hd, hv]; rfl)

theorem ofSound {x : Tracing α} (h : Sound records o.machine → Keeps records o x added failed Q) :
    Keeps records o x added failed Q :=
  fun sound => h sound sound

theorem writeVariable {Γ : Scopes} {id : Nat} {name : Token} {unbound : Additions}
    (holds : Holds o.machine.store unbound Γ env)
    (recorded : records id name (Γ.distance? name.lexeme))
    (fits : Fits records o.machine.store v) :
    Keeps records o (silent (Run.writeVariable id name env v)) unbound unbound
      fun _ _ => True := by
  have write (o' : Observed) (scope : Nat) (grows : Grows unbound o.machine.store o'.machine.store)
      (may : o'.machine.store.binds scope name.lexeme = true ∨ unbound scope name.lexeme) :
      Keeps records o' (silent (Run.onStore fun store => ((), store.define scope name.lexeme v)))
        unbound unbound fun _ _ => True :=
    (defineIn may (fits.mono (grows.trans (.define v may)))).weaken (fun _ _ h => h)
      (fun _ _ h => h) fun _ _ _ _ => trivial
  refine ofSound fun sound => ?_
  have known := sound.locals _ _ _ recorded
  rw [Run.writeVariable, silent_bind]
  refine (read _).bind fun o' distance leads same => ?_
  rw [same.2, known]
  cases found : Γ.distance? name.lexeme with
  | some d =>
    obtain ⟨scope, here, bound⟩ := holds.bound _ d found
    simp only [here]
    exact write o' scope leads.grows (bound.imp_left (leads.grows.kept scope _))
  | none =>
    simp only [silent_bind]
    refine (read _).bind fun o'' target leads' same' => ?_
    cases target with
    | none => exact stop _
    | some scope =>
      have bound : o'.machine.store.binds scope name.lexeme = true := by
        have first := List.find?_some same'.2.symm
        simpa using first
      have kept := leads'.grows.kept scope _ bound
      exact write o'' scope (leads.grows.trans leads'.grows) (.inl kept)

theorem makeFunction (closure : Closure) :
    Keeps records o (silent (Run.newFunction closure)) added failed
      fun _ v => ∃ id, v = .function id closure := by
  rw [Run.newFunction, silent_bind]
  exact newIdentity.finish fun o' id _ _ => ⟨id, rfl⟩

theorem newFunction {closure : Closure} (fits : FunctionFits records o.machine.store closure) :
    Keeps records o (silent (Run.newFunction closure)) added failed (Fits records) := by
  refine (makeFunction closure).weaken (fun _ _ may => may) (fun _ _ may => may)
    fun o' v leads made => ?_
  obtain ⟨id, rfl⟩ := made
  exact FunctionFits.mono fits leads.grows

theorem bindReceiver {method : Closure} {c : Class} (object : Nat)
    (fits : MethodFits records o.machine.store method)
    (receiver : ClassFits records o.machine.store c) :
    Keeps records o (silent (Run.bindReceiver method (.object object c))) nothing nothing
      fun store closure => FunctionFits records store closure ∧
        closure.declaration = method.declaration := by
  obtain ⟨Γ, holds, resolved⟩ := fits
  have known : Fits records o.machine.store (.object object c) := receiver
  rw [Run.bindReceiver_eq, silent_bind]
  refine (ownScope method.env "this" known).bind fun o' inner leads made => ?_
  obtain ⟨scope, rfl, inside, bound⟩ := made
  have inner : Holds o'.machine.store nothing (["this"] :: Γ) (scope :: method.env) := by
    refine (holds.mono leads.grows).push inside fun name member => ?_
    rwa [List.mem_singleton.mp member]
  exact pure ⟨⟨_, inner, resolved⟩, rfl⟩

theorem boundFunction {method : Closure} {c : Class} (object : Nat)
    (fits : MethodFits records o.machine.store method)
    (receiver : ClassFits records o.machine.store c) :
    Keeps records o (runner.bindReceiver method (.object object c) >>= fun closure =>
      runner.step (Run.newFunction closure)) nothing nothing (Fits records) :=
  (bindReceiver object fits receiver).bind fun _ _ _ made => newFunction made.1

theorem property {c : Class} (object : Nat) (fits : ClassFits records o.machine.store c)
    (name : Token) :
    Keeps records o (runner.property object c name) nothing nothing (Fits records) := by
  have field : Keeps records o (silent (Run.read fun m => m.store.field? object name.lexeme))
      nothing nothing fun store found => ∀ v, found = some v → Fits records store v :=
    step rfl rfl (.refl _ _) (fun sound => sound) fun sound v found =>
      sound.fields object _ v found
  refine field.bind fun o' found leads known => ?_
  have fits' := fits.mono leads.grows
  cases found with
  | some v => exact pure (known v rfl)
  | none =>
    dsimp only
    cases method : c.findMethod name.lexeme with
    | none => exact stop _
    | some found => exact boundFunction object (fits' _ _ method) fits'

theorem superMethod (id : Nat) (keyword method : Token) (env : Env) :
    Keeps records o (runner.superMethod id keyword method env) nothing nothing (Fits records) := by
  rw [Runner.superMethod]
  refine (read fun m => m.locals[id]?).bind fun o₁ distance _ _ => ?_
  cases distance with
  | none => exact stop _
  | some d =>
    refine (lookup env d "super").bind fun o₂ above leads₂ known => ?_
    split
    · rename_i superclass
      have fits : ClassFits records o₂.machine.store superclass := known _ rfl
      refine (lookup env (d - 1) "this").bind fun o₃ receiver leads₃ known' => ?_
      split
      · rename_i object c
        have own : ClassFits records o₃.machine.store c := known' _ rfl
        cases found : superclass.findMethod method.lexeme with
        | none => exact stop _
        | some declared => exact boundFunction object ((fits.mono leads₃.grows) _ _ found) own
      · exact stop _
    · exact stop _

theorem boundReceiver (closure : Closure) (paren : Token) :
    Keeps records o (silent (Run.boundReceiver closure paren)) nothing nothing (Fits records) := by
  rw [Run.boundReceiver, silent_bind]
  refine (lookup closure.env 0 "this").bind fun o' found _ known => ?_
  cases found with
  | none => exact stop _
  | some v => exact pure (known v rfl)

theorem methodScope {Γ : Scopes} {superclass : Option Class} {inherits : Option Expr}
    (holds : Holds o.machine.store nothing Γ env)
    (fits : ∀ c ∈ superclass, ClassFits records o.machine.store c)
    (same : inherits.isSome = superclass.isSome) :
    Keeps records o (silent (Run.methodScope env superclass)) added failed
      fun store scope => ∃ inner, Stmt.classScopes inherits Γ = ["this"] :: inner ∧
        Holds store nothing inner scope := by
  cases superclass with
  | none =>
    obtain rfl : inherits = none := by simpa using same
    exact pure ⟨Γ, rfl, holds⟩
  | some c =>
    obtain ⟨e, rfl⟩ := Option.isSome_iff_exists.mp same
    have known : Fits records o.machine.store (.classValue c) := fits c rfl
    refine (ownScope env "super" known).weaken (fun _ _ may => may) (fun _ _ may => may)
      fun o' scope leads made => ?_
    obtain ⟨scope, rfl, inside, bound⟩ := made
    refine ⟨["super"] :: Γ, rfl, (holds.mono leads.grows).push inside fun name member => ?_⟩
    rwa [List.mem_singleton.mp member]

end Keeps

def Succeeds (x : Run α) : Prop := ∀ m, ∃ a m', x m = .ok a m'

namespace Succeeds

theorem onStore (f : Store → α × Store) : Succeeds (Run.onStore f) := fun _ => ⟨_, _, rfl⟩

theorem pure (a : α) : Succeeds (Pure.pure a : Run α) := fun m => ⟨a, m, rfl⟩

theorem bind {x : Run α} {f : α → Run β} (first : Succeeds x) (second : ∀ a, Succeeds (f a)) :
    Succeeds (x >>= f) := by
  intro m
  obtain ⟨a, m', ends⟩ := first m
  simp only [Bind.bind, EStateM.bind, ends]
  exact second a m'

theorem define (env : Env) (name : String) (value : Value) :
    Succeeds (Run.define env name value) := by
  cases env with
  | nil => exact pure _
  | cons scope outer => exact onStore fun store => ((), store.define scope name value)

theorem declareClass (env : Env) (name : Token) (superclass : Option Class)
    (methods : List FunctionDecl) : Succeeds (Run.declareClass env name superclass methods) := by
  have scope : Succeeds (Run.methodScope env superclass) := by
    cases superclass with
    | none => exact pure _
    | some c =>
      exact ((onStore _).bind fun _ => pure _).bind fun _ => (define _ _ _).bind fun _ => pure _
  exact (define _ _ _).bind fun _ => scope.bind fun _ => (onStore _).bind fun _ => define _ _ _

end Succeeds

theorem Keeps.of_succeeds {y : Run α} {Q : Store → α → Prop} (succeeds : Succeeds y)
    (h : Keeps records o (silent y) added added Q) :
    Keeps records o (silent y) added failed Q := by
  intro sound
  have ends := h sound
  obtain ⟨a, m, result⟩ := succeeds o.machine
  simp only [silent, result] at ends ⊢
  exact ends

end Lox.Frame
