import Lox.Proofs.Evaluation.Values
import Lox.Proofs.Receiver.Invariant

namespace Lox.Lexical

variable {α β : Type} {records : Records} {t : Tracked}

def Ends (records : Records) (t : Tracked) (Q : Tracked → α → Prop) :
    EStateM.Result Stop Machine α → EStateM.Result Stop Tracked α → Prop
  | .ok a m, .ok b t' => b = a ∧ t'.machine = m ∧ Leads t t' ∧ Sound records t' ∧ Q t' a
  | .error reason m, .error reason' t' =>
    reason' = reason ∧ t'.machine = m ∧ Leads t t' ∧ Sound records t'
  | _, _ => False

def Agrees (records : Records) (t : Tracked) (x : Run α) (y : Follow α) (Q : Tracked → α → Prop) :
    Prop :=
  Sound records t → Ends records t Q (x t.machine) (y t)

theorem Ends.conseq {t₀ : Tracked} {Q Q' : Tracked → α → Prop}
    {p : EStateM.Result Stop Machine α} {q : EStateM.Result Stop Tracked α}
    (h : Ends records t Q p q) (leads : Leads t₀ t)
    (implies : ∀ t' a, Leads t t' → Q t' a → Q' t' a) : Ends records t₀ Q' p q := by
  cases p with
  | ok a m =>
    cases q with
    | ok b t' =>
      obtain ⟨same, machine, leads', sound, holds⟩ := h
      exact ⟨same, machine, leads.trans leads', sound, implies t' a leads' holds⟩
    | error reason t' => exact h.elim
  | error reason m =>
    cases q with
    | ok b t' => exact h.elim
    | error reason' t' =>
      obtain ⟨same, machine, leads', sound⟩ := h
      exact ⟨same, machine, leads.trans leads', sound⟩

namespace Agrees

variable {x : Run α} {y : Follow α} {Q Q' : Tracked → α → Prop} {R : Tracked → β → Prop}

theorem pure {a : α} (h : Q t a) : Agrees records t (Pure.pure a) (Pure.pure a) Q :=
  fun sound => ⟨rfl, rfl, .refl t, sound, h⟩

theorem bind {f : α → Run β} {g : α → Follow β} (first : Agrees records t x y Q)
    (second : ∀ t' a, Leads t t' → Q t' a → Agrees records t' (f a) (g a) R) :
    Agrees records t (x >>= f) (y >>= g) R := by
  intro sound
  have start := first sound
  simp only [Bind.bind, EStateM.bind]
  cases hx : x t.machine with
  | ok a m =>
    cases hy : y t with
    | ok b t' =>
      rw [hx, hy] at start
      obtain ⟨rfl, rfl, leads, sound', holds⟩ := start
      exact (second t' b leads holds sound').conseq leads fun _ _ _ h => h
    | error reason t' =>
      rw [hx, hy] at start
      exact start.elim
  | error reason m =>
    cases hy : y t with
    | ok b t' =>
      rw [hx, hy] at start
      exact start.elim
    | error reason' t' =>
      rw [hx, hy] at start
      obtain ⟨rfl, rfl, leads, sound'⟩ := start
      exact ⟨rfl, rfl, leads, sound'⟩

theorem stop (reason : Stop) :
    Agrees records t (Run.stop reason : Run α) (lift (Run.stop reason)) Q :=
  fun sound => ⟨rfl, rfl, .refl t, sound⟩

theorem step {a : α} {m : Machine} (ends : x t.machine = .ok a m)
    (leads : Leads t { t with machine := m })
    (sound : Sound records t → Sound records { t with machine := m })
    (holds : Sound records t → Q { t with machine := m } a) : Agrees records t x (lift x) Q := by
  intro start
  have both : lift x t = .ok a { t with machine := m } := by simp only [lift, ends]
  rw [ends, both]
  exact ⟨rfl, rfl, leads, sound start, holds start⟩

theorem fails {reason : Stop} (ends : x t.machine = .error reason t.machine) :
    Agrees records t x (lift x) Q := by
  intro sound
  have both : lift x t = .error reason t := by simp only [lift, ends]
  rw [ends, both]
  exact ⟨rfl, rfl, .refl t, sound⟩

theorem read (f : Machine → α) :
    Agrees records t (Run.read f) (lift (Run.read f)) fun t' a => t' = t ∧ a = f t.machine :=
  step rfl (.refl t) (fun sound => sound) fun _ => ⟨rfl, rfl⟩

end Agrees

theorem lift_bind (x : Run α) (f : α → Run β) :
    lift (x >>= f) = lift x >>= fun a => lift (f a) := by
  funext t
  simp only [lift, Bind.bind, EStateM.bind]
  cases x t.machine <;> rfl

namespace Agrees

variable {env : Env} {name : String} {v : Value} {Q : Tracked → α → Prop}

theorem onStore {f : Store → α × Store} (later : Later t.machine.store (f t.machine.store).2)
    (identities : t.machine.store.nextIdentity ≤ (f t.machine.store).2.nextIdentity)
    (bindings : ∀ scope name v, (f t.machine.store).2.binding? scope name = some v →
      t.machine.store.binding? scope name = some v ∨ Knows records t v)
    (fields : ∀ object name v, (f t.machine.store).2.field? object name = some v →
      t.machine.store.field? object name = some v ∨ Knows records t v)
    (holds : Q { t with machine := { t.machine with store := (f t.machine.store).2 } }
      (f t.machine.store).1) :
    Agrees records t (Run.onStore f) (lift (Run.onStore f)) Q := by
  have leads : Leads t { t with machine := { t.machine with store := (f t.machine.store).2 } } :=
    ⟨rfl, later, identities, fun _ _ => rfl⟩
  exact step rfl leads (fun sound => sound.step leads bindings fields) fun _ => holds

theorem defineIn (scope : Nat) (plain : IsPlain name) (known : Knows records t v) :
    Agrees records t (Run.onStore fun store => ((), store.define scope name v))
      (lift (Run.onStore fun store => ((), store.define scope name v))) fun _ _ => True := by
  refine onStore (.define plain scope v) (Nat.le_refl _) (fun scope' name' v' found => ?_)
    (fun _ _ _ found => .inl found) trivial
  rw [Store.binding?_define] at found
  split at found
  · cases found
    exact .inr known
  · exact .inl found

theorem define (env : Env) (plain : IsPlain name) (known : Knows records t v) :
    Agrees records t (Run.define env name v) (lift (Run.define env name v)) fun _ _ => True := by
  cases env with
  | nil => exact pure trivial
  | cons scope outer => exact defineIn scope plain known

theorem openScope (env : Env) :
    Agrees records t (Run.openScope env) (lift (Run.openScope env))
      fun _ env' => ∃ scope, env' = scope :: env := by
  rw [Run.openScope, lift_bind]
  have new : Agrees records t (Run.onStore Store.newScope) (lift (Run.onStore Store.newScope))
      fun _ _ => True :=
    onStore (fun _ _ _ _ found => by rwa [Store.binding?_newScope]) (Nat.le_refl _)
      (fun _ _ _ found => .inl (by rwa [Store.binding?_newScope] at found))
      (fun _ _ _ found => .inl found) trivial
  exact new.bind fun _ scope _ _ => pure ⟨scope, rfl⟩

theorem ownScope (env : Env) (name : String) (known : Knows records t v) :
    Agrees records t (Run.ownScope env name v) (lift (Run.ownScope env name v))
      fun t' inner => ∃ scope, inner = scope :: env ∧
        t'.machine.store.binding? scope name = some v := by
  let scope := t.machine.store.newScope.1
  let store := t.machine.store.newScope.2.define scope name v
  have leads : Leads t { t with machine := { t.machine with store := store } } :=
    ⟨rfl, .openScope name v, Nat.le_refl _, fun _ _ => rfl⟩
  refine step (m := { t.machine with store := store }) rfl leads
    (fun sound => sound.step leads (fun scope' name' v' found => ?_)
      fun _ _ _ found => .inl found) fun _ => ⟨scope, rfl, ?_⟩
  · simp only [store] at found
    rw [Store.binding?_define, Store.binding?_newScope] at found
    split at found
    · cases found
      exact .inr known
    · exact .inl found
  · simp only [store]
    rw [Store.binding?_define, if_pos]
    exact ⟨rfl, rfl, by simp [scope, Store.newScope]⟩

theorem newObject :
    Agrees records t (Run.onStore Store.newObject) (lift (Run.onStore Store.newObject))
      fun _ _ => True :=
  onStore (fun _ _ _ _ found => found) (Nat.le_refl _) (fun _ _ _ found => .inl found)
    (fun _ _ _ found => .inl (by rwa [Store.field?_newObject] at found)) trivial

theorem newIdentity :
    Agrees records t (Run.onStore Store.newIdentity) (lift (Run.onStore Store.newIdentity))
      fun _ _ => True :=
  onStore (fun _ _ _ _ found => found) (Nat.le_succ _) (fun _ _ _ found => .inl found)
    (fun _ _ _ found => .inl found) trivial

theorem setField (object : Nat) (name : String) (known : Knows records t v) :
    Agrees records t (Run.onStore fun store => ((), store.setField object name v))
      (lift (Run.onStore fun store => ((), store.setField object name v))) fun _ _ => True := by
  refine onStore (fun _ _ _ _ found => found) (Nat.le_refl _) (fun _ _ _ found => .inl found)
    (fun object' name' v' found => ?_) trivial
  rw [Store.field?_setField] at found
  split at found
  · cases found
    exact .inr known
  · exact .inl found

theorem write (text : String) :
    Agrees records t (Run.write text) (lift (Run.write text)) fun _ _ => True := by
  by_cases accepts : t.machine.sink.accepts text = true
  · have leads : Leads t { t with machine := { t.machine with
        sink := t.machine.sink.append text } } :=
      ⟨rfl, .refl _, Nat.le_refl _, fun _ _ => rfl⟩
    have ends : Run.write text t.machine =
        .ok () { t.machine with sink := t.machine.sink.append text } := by
      rw [Run.write, if_pos accepts]
    refine step ends leads (fun sound => ?_) fun _ => trivial
    exact sound.step leads (fun _ _ _ found => .inl found) fun _ _ _ found => .inl found
  · exact fails (by rw [Run.write, if_neg accepts])

theorem printLine (text : String) :
    Agrees records t (Run.printLine text) (lift (Run.printLine text)) fun _ _ => True := by
  rw [Run.printLine, lift_bind]
  exact (write text).bind fun _ _ _ _ => write "\n"

theorem readClock (paren : Token) :
    Agrees records t (Run.readClock paren) (lift (Run.readClock paren)) (Knows records) := by
  have leads : Leads t { t with machine := { t.machine with clock := t.machine.clock.next } } :=
    ⟨rfl, .refl _, Nat.le_refl _, fun _ _ => rfl⟩
  have tick : Agrees records t Run.tick (lift Run.tick) fun _ _ => True :=
    step rfl leads (fun sound => sound.step leads (fun _ _ _ found => .inl found)
      fun _ _ _ found => .inl found) fun _ => trivial
  rw [Run.readClock, lift_bind]
  refine tick.bind fun t' reading _ _ => ?_
  cases reading with
  | ok seconds => exact pure trivial
  | error reason => exact stop _

theorem ofExcept {result : Except RuntimeError Value}
    (known : ∀ v, result = .ok v → Knows records t v) :
    Agrees records t (Run.ofExcept result) (lift (Run.ofExcept result)) (Knows records) := by
  cases result with
  | ok v => exact pure (known v rfl)
  | error error => exact stop _

theorem checkCall (callee : Value) (paren : Token) (given : Nat) :
    Agrees records t (Run.checkCall callee paren given) (lift (Run.checkCall callee paren given))
      fun _ _ => True := by
  unfold Run.checkCall
  split
  · exact stop _
  · split
    · exact pure trivial
    · exact stop _

theorem requireClass (token : Token) (known : Knows records t v) :
    Agrees records t (Run.requireClass token v) (lift (Run.requireClass token v))
      fun t' c => ClassKnows records t'.machine.store c := by
  cases v with
  | classValue c => exact pure known
  | _ => exact stop _

theorem readVariable (id : Nat) (name : Token) (env : Env) :
    Agrees records t (Run.readVariable id name env) (lift (Run.readVariable id name env))
      (Knows records) := by
  cases hd : t.machine.locals[id]? with
  | some d =>
    cases hv : t.machine.store.getAt? env d name.lexeme with
    | some v =>
      have ends : Run.readVariable id name env t.machine = .ok v t.machine := by
        simp [Run.readVariable, hd, hv]
      refine step ends (.refl t) (fun sound => sound) fun sound => ?_
      obtain ⟨scope, -, bound⟩ := Option.bind_eq_some_iff.mp hv
      exact sound.bindings scope _ v bound
    | none => exact fails (by simp [Run.readVariable, hd, hv]; rfl)
  | none =>
    cases hv : t.machine.store.get? globals name.lexeme with
    | some v =>
      have ends : Run.readVariable id name env t.machine = .ok v t.machine := by
        simp [Run.readVariable, hd, hv]
      refine step ends (.refl t) (fun sound => sound) fun sound => ?_
      obtain ⟨scope, -, bound⟩ := Option.bind_eq_some_iff.mp hv
      exact sound.bindings scope _ v bound
    | none => exact fails (by simp [Run.readVariable, hd, hv]; rfl)

theorem writeVariable (id : Nat) {name : Token} (env : Env) (plain : IsPlain name.lexeme)
    (known : Knows records t v) :
    Agrees records t (Run.writeVariable id name env v) (lift (Run.writeVariable id name env v))
      fun _ _ => True := by
  rw [Run.writeVariable, lift_bind]
  refine (read _).bind fun t' distance _ same => ?_
  obtain ⟨rfl, -⟩ := same
  cases distance with
  | some d =>
    dsimp only
    split
    · exact defineIn _ plain known
    · exact stop _
  | none =>
    dsimp only
    rw [lift_bind]
    refine (read _).bind fun t' scope _ same => ?_
    obtain ⟨rfl, -⟩ := same
    cases scope with
    | some scope => exact defineIn _ plain known
    | none => exact stop _

end Agrees

end Lox.Lexical
