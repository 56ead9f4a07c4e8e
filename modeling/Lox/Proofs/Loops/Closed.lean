import Lox.Proofs.Loops.Evaluation
import Lox.Proofs.Session.Steps

namespace Lox

def Value.HasClosure : Value → Closure → Prop
  | .function _ closure, found => found = closure
  | .classValue c, found | .object _ c, found => ∃ name, c.findMethod name = some found
  | _, _ => False

namespace Store

variable {L : Distances} {W : Pairing} {s s' : Store} {v v' : Value} {c c' : Class} {env env' : Env}

def HasEnv (s : Store) (env : Env) : Prop := ∀ scope ∈ env, scope < s.scopes.size

inductive HasClosure (s : Store) (closure : Closure) : Prop where
  | binding {scope : Nat} {name : String} {v : Value} (bound : s.binding? scope name = some v)
    (has : v.HasClosure closure)
  | field {object : Nat} {name : String} {v : Value} (found : s.field? object name = some v)
    (has : v.HasClosure closure)

structure IsClosed (s : Store) : Prop where
  globals : 0 < s.scopes.size
  closures : ∀ closure, s.HasClosure closure → s.HasEnv closure.env

def existing (s : Store) : Pairing := fun scope scope' => scope' = scope ∧ scope < s.scopes.size

theorem IsClosed.hasEnv_globals (h : s.IsClosed) : s.HasEnv Lox.globals :=
  List.forall_mem_singleton.mpr h.globals

theorem HasEnv.moved (h : s.HasEnv env) : EnvMoved s.existing Eq env env :=
  .self fun scope member => ⟨rfl, h scope member⟩

/-- The function is closed over scopes of the store, and what occurs in it has the same distances in
either record. -/
structure Stands (L : Distances) (s : Store) (closure : Closure) : Prop where
  env : s.HasEnv closure.env
  code : L.Agree (Stmt.functionOccurrences closure.declaration)

theorem Stands.moved {closure : Closure} (h : Stands L s closure) {R : Shift} (all : R.IsReflexive) :
    closure.Moved L s.existing Eq R closure :=
  ⟨h.env.moved, Stmt.functionCopies_self _ all h.code, rfl⟩

theorem class_moved_self (each : ∀ closure name, c.findMethod name = some closure →
    Stands L s closure) : c.Moved L s.existing c := by
  refine ⟨rfl, rfl, fun name => ?_⟩
  cases found : c.findMethod name with
  | none => exact .none
  | some method =>
    have all : Shift.IsReflexive Eq := fun _ => rfl
    exact .some ⟨Eq, (each method name found).moved all.enter⟩

theorem value_moved_self (each : ∀ closure, v.HasClosure closure → Stands L s closure) :
    v.Moved L s.existing v := by
  cases v with
  | nil => exact .nil
  | bool b => exact .bool b
  | number x => exact .number x
  | string text => exact .string text
  | native f => exact .native f
  | function id closure => exact .function id ⟨Eq, rfl, (each closure rfl).moved fun _ => rfl⟩
  | classValue c =>
    exact .classValue (class_moved_self fun closure name found => each closure ⟨name, found⟩)
  | object id c =>
    exact .object id (class_moved_self fun closure name found => each closure ⟨name, found⟩)

theorem IsClosed.moved (h : s.IsClosed)
    (code : ∀ closure, s.HasClosure closure →
      L.Agree (Stmt.functionOccurrences closure.declaration)) : s.Moved L s.existing s where
  objects := rfl
  identity := rfl
  inside := by
    rintro scope _ ⟨rfl, inside⟩
    exact ⟨inside, inside⟩
  distinct := by
    rintro scope _ other _ ⟨rfl, -⟩ ⟨rfl, -⟩
    exact Iff.rfl
  globals := ⟨rfl, h.globals⟩
  back scope inside := ⟨scope, rfl, inside⟩
  bindings := by
    rintro _ scope name ⟨rfl, -⟩
    cases found : s.binding? scope name with
    | none => exact .none
    | some v =>
      refine .some (value_moved_self fun closure has => ?_)
      exact ⟨h.closures closure (.binding found has), code closure (.binding found has)⟩
  fields object name := by
    cases found : s.field? object name with
    | none => exact .none
    | some v =>
      refine .some (value_moved_self fun closure has => ?_)
      exact ⟨h.closures closure (.field found has), code closure (.field found has)⟩

theorem Moved.hasEnv (h : s.Moved L W s') {R : Shift} (env : EnvMoved W R env env') :
    s'.HasEnv env' := by
  intro scope' member
  obtain ⟨scope, same⟩ := env.back scope' member
  exact (h.inside scope scope' same).2

theorem Moved.hasMethod (h : s.Moved L W s') (moved : c.Moved L W c') {name : String}
    {method' : Closure} (found' : c'.findMethod name = some method') : s'.HasEnv method'.env := by
  have found := moved.methods name
  rw [found'] at found
  generalize c.findMethod name = method at found
  cases found with
  | some related =>
    obtain ⟨R, moved⟩ := related
    exact h.hasEnv moved.env

theorem Moved.hasValue (h : s.Moved L W s') (moved : v.Moved L W v') {closure : Closure}
    (has : v'.HasClosure closure) : s'.HasEnv closure.env := by
  cases moved with
  | function id moved =>
    obtain ⟨R, -, moved⟩ := moved
    cases has
    exact h.hasEnv moved.env
  | classValue moved | object id moved =>
    obtain ⟨name, found⟩ := has
    exact h.hasMethod moved found
  | _ => exact has.elim

theorem Moved.isClosed (h : s.Moved L W s') : s'.IsClosed where
  globals := (h.inside 0 0 h.globals).2
  closures closure has := by
    cases has with
    | @binding scope' name v' bound has =>
      have old : scope' < s'.scopes.size := by
        by_contra new
        rw [binding?_of_size_le s' name (Nat.le_of_not_lt new)] at bound
        cases bound
      obtain ⟨scope, same⟩ := h.back scope' old
      have found := h.bindings scope scope' name same
      rw [bound] at found
      generalize s.binding? scope name = v at found
      cases found with
      | some moved => exact h.hasValue moved has
    | @field object name v' found' has =>
      have found := h.fields object name
      rw [found'] at found
      generalize s.field? object name = v at found
      cases found with
      | some moved => exact h.hasValue moved has

end Store

theorem Machine.not_hasClosure_initial (clock : Clock) (limit : Option Nat) (closure : Closure) :
    ¬(initial clock limit).store.HasClosure closure := by
  intro has
  cases has with
  | binding bound has =>
    obtain rfl := binding?_initial bound
    exact has
  | field found => cases found

theorem Machine.isClosed_initial (clock : Clock) (limit : Option Nat) :
    (initial clock limit).store.IsClosed where
  globals := by
    have size := Store.size_define Store.initial 0 "clock" (.native .clock)
    exact size ▸ Nat.one_pos
  closures closure has := absurd has (not_hasClosure_initial clock limit closure)

theorem Machine.moved_self {m : Machine} (closed : m.store.IsClosed) :
    m.Moved ⟨m.locals, m.locals⟩ m.store.existing m :=
  ⟨⟨rfl, rfl⟩, closed.moved fun _ _ _ _ => rfl, rfl, rfl⟩

namespace Run

variable {α β : Type} {m : Machine} {env : Env}

theorem EndMoved.isClosed {L : Distances} {W : Pairing} {V : Pairing → α → β → Prop}
    {result : EStateM.Result Stop Machine α} {result' : EStateM.Result Stop Machine β}
    (h : EndMoved L W V result result') : (lastState result').store.IsClosed := by
  cases h with
  | ok _ machine _ => exact machine.store.isClosed
  | error _ _ machine => exact machine.store.isClosed

theorem evaluate_isClosed (fuel : Nat) (e : Expr) (closed : m.store.IsClosed)
    (place : m.store.HasEnv env) : (lastState (evaluate fuel e env m)).store.IsClosed := by
  have copy : e.Copies ⟨m.locals, m.locals⟩ Eq e := e.copies_self (fun _ => rfl) fun _ _ => rfl
  exact ((moved _ fuel).1 place.moved copy m m (Machine.moved_self closed)).isClosed

theorem execute_isClosed (fuel : Nat) (s : Stmt) (closed : m.store.IsClosed)
    (place : m.store.HasEnv env) : (lastState (execute fuel s env m)).store.IsClosed := by
  have copy : s.Copies ⟨m.locals, m.locals⟩ Eq s := s.copies_self (fun _ => rfl) fun _ _ => rfl
  exact ((moved _ fuel).2 place.moved copy m m (Machine.moved_self closed)).isClosed

theorem program_isClosed (fuel : Nat) (ss : List Stmt) (closed : m.store.IsClosed) :
    (lastState (program fuel ss m)).store.IsClosed := by
  induction ss generalizing m with
  | nil => exact closed
  | cons s rest ih =>
    have first := execute_isClosed fuel s closed closed.hasEnv_globals
    simp only [program_cons, Bind.bind, EStateM.bind]
    generalize execute fuel s globals m = result at first ⊢
    cases result with
    | ok flow m' => exact ih first
    | error reason m' => exact first

end Run

namespace Session

variable {session : Session}

theorem isClosed_run (h : session.machine.store.IsClosed) (fuel : Nat) (source : String) :
    (session.run fuel source).2.machine.store.IsClosed := by
  by_cases accepted : IsAccepted source session.nextId
  · rw [run_eq_proceed fuel accepted, proceed, perform_eq]
    have learned : (session.learn source).machine.store.IsClosed := h
    exact Run.program_isClosed fuel _ learned
  · rw [run_eq_skip fuel accepted]
    exact h

theorem isClosed_evaluate (h : session.machine.store.IsClosed) (fuel : Nat) (source : String) :
    (session.evaluate fuel source).2.machine.store.IsClosed := by
  rw [Session.evaluate_eq]
  split
  · split
    · rw [perform_eq]
      exact Run.evaluate_isClosed fuel _ h h.hasEnv_globals
    · exact h
  · exact h

/-- Whatever a session was asked to do, its store is closed. -/
theorem isClosed_after (h : session.machine.store.IsClosed) (steps : List Step) :
    (session.after steps).machine.store.IsClosed := by
  induction steps generalizing session with
  | nil => exact h
  | cons step rest ih =>
    cases step with
    | run fuel source => exact ih (isClosed_run h fuel source)
    | evaluate fuel source => exact ih (isClosed_evaluate h fuel source)

end Session

end Lox
