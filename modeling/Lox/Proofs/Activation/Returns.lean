import Mathlib
import Lox.Proofs.Activation.Recording
import Lox.Proofs.Resolution.Returns
import Lox.Proofs.Session.Accepted

namespace Lox.Activation

open Logging

def Within (statements : List Stmt) (entries : List Entry) : Prop :=
  ∀ statement m, .began statement m ∈ entries → statement ∈ statements

def NoReturn (entries : List Entry) : Prop :=
  ∀ statement m, .began statement m ∈ entries → statement.isReturn = false

/-- A `return` and nothing behind it but the value it gives. -/
inductive Returned : Value → Machine → List Entry → Prop where
  | bare (keyword : Token) (m : Machine) : Returned .nil m [.began (.ret keyword none) m]
  | value (keyword : Token) (e : Expr) (m : Machine) (v : Value) (m' : Machine) :
    Returned v m' [.began (.ret keyword (some e)) m, .evaluated e v m']

def Ends : Flow → Machine → List Entry → Prop
  | .normal, _, entries => NoReturn entries
  | .returning v, m, entries =>
    ∃ before last, entries = before ++ last ∧ NoReturn before ∧ Returned v m last

variable {α : Type} {statements : List Stmt} {entries entries' : List Entry}

theorem Within.append (first : Within statements entries) (second : Within statements entries') :
    Within statements (entries ++ entries') :=
  fun statement m member =>
    (List.mem_append.mp member).elim (first statement m) (second statement m)

theorem NoReturn.append (first : NoReturn entries) (second : NoReturn entries') :
    NoReturn (entries ++ entries') :=
  fun statement m member =>
    (List.mem_append.mp member).elim (first statement m) (second statement m)

theorem Ends.behind {flow : Flow} {m : Machine} (second : Ends flow m entries')
    (first : NoReturn entries) : Ends flow m (entries ++ entries') := by
  cases flow with
  | normal => exact first.append second
  | returning v =>
    obtain ⟨before, last, rfl, none, returned⟩ := second
    exact ⟨entries ++ before, last, by rw [List.append_assoc], first.append none, returned⟩

/-- A step of the body in which no statement begins. -/
def IsInner (x : Logging Entry α) : Prop :=
  ∀ s a s', x s = .ok a s' →
    ∃ more, s'.log = s.log ++ more ∧ ∀ statement m, .began statement m ∉ more

theorem isInner_silent (step : Run α) : IsInner (silent step) := by
  intro s a s' ends
  exact ⟨[], by simp [(silent_eq_ok.mp ends).2], nofun⟩

theorem evaluate_eq_ok {fuel : Nat} {e : Expr} {env : Env} {s s' : Logged Entry} {v : Value}
    (ends : evaluate fuel e env s = .ok v s') :
    s'.log = s.log ++ [.evaluated e v s'.machine] := by
  obtain ⟨s₁, evaluates, machine, log⟩ := noting_eq_ok.mp ends
  rw [log, machine, (silent_eq_ok.mp evaluates).2]

theorem isInner_evaluate (fuel : Nat) (e : Expr) (env : Env) : IsInner (evaluate fuel e env) :=
  fun _ _ _ ends => ⟨_, evaluate_eq_ok ends, by simp⟩

/-- A stretch of the body that begins only these statements, and ends with the first return. -/
def Keeps (statements : List Stmt) (x : Logging Entry Flow) : Prop :=
  ∀ s flow s', x s = .ok flow s' →
    ∃ more, s'.log = s.log ++ more ∧ Within statements more ∧ Ends flow s'.machine more

namespace Keeps

variable {x y : Logging Entry Flow}

theorem normal : Keeps statements (pure .normal) := by
  intro s flow s' ends
  cases ends
  exact ⟨[], by simp, nofun, nofun⟩

theorem stop (reason : Stop) : Keeps statements (silent (Run.stop reason)) := nofun

theorem weaken {fewer : List Stmt} (h : Keeps fewer x) (subset : fewer ⊆ statements) :
    Keeps statements x := by
  intro s flow s' ends
  obtain ⟨more, log, within, last⟩ := h s flow s' ends
  exact ⟨more, log, fun statement m member => subset (within statement m member), last⟩

theorem after {first : Logging Entry α} {f : α → Logging Entry Flow} (inner : IsInner first)
    (second : ∀ a, Keeps statements (f a)) : Keeps statements (first >>= f) := by
  intro s flow s' ends
  obtain ⟨a, s₁, ends₁, ends₂⟩ := bind_eq_ok.mp ends
  obtain ⟨quiet, log, nothing⟩ := inner s a s₁ ends₁
  obtain ⟨more, log', within, last⟩ := second a s₁ flow s' ends₂
  refine ⟨quiet ++ more, by rw [log', log, List.append_assoc], ?_, last.behind ?_⟩
  · exact Within.append (fun statement m member => absurd member (nothing statement m)) within
  · exact fun statement m member => absurd member (nothing statement m)

theorem andThen (first : Keeps statements x) (second : Keeps statements y) :
    Keeps statements (do
      match ← x with
      | .normal => y
      | .returning value => pure (.returning value)) := by
  intro s flow s' ends
  obtain ⟨flow₁, s₁, ends₁, ends₂⟩ := bind_eq_ok.mp ends
  obtain ⟨entries, log, within, last⟩ := first s flow₁ s₁ ends₁
  cases flow₁ with
  | returning value =>
    cases ends₂
    exact ⟨entries, log, within, last⟩
  | normal =>
    obtain ⟨more, log', within', last'⟩ := second s₁ flow s' ends₂
    exact ⟨entries ++ more, by rw [log', log, List.append_assoc], within.append within',
      last'.behind last⟩

theorem began {statement : Stmt} (member : statement ∈ statements)
    (other : statement.isReturn = false) (h : Keeps statements x) :
    Keeps statements (do note (.began statement); x) := by
  intro s flow s' ends
  obtain ⟨more, log, within, last⟩ :=
    h { s with log := s.log ++ [.began statement s.machine] } flow s' ends
  have first : NoReturn [.began statement s.machine] := by
    rintro part m (_ | ⟨_, ⟨⟩⟩)
    exact other
  refine ⟨.began statement s.machine :: more, by rw [log]; simp, ?_, last.behind first⟩
  rintro part m (_ | ⟨_, later⟩)
  · exact member
  · exact within part m later

theorem bareReturn {keyword : Token} (member : .ret keyword none ∈ statements) :
    Keeps statements (do note (.began (.ret keyword none)); pure (.returning .nil)) := by
  intro s flow s' ends
  cases ends
  refine ⟨[.began (.ret keyword none) s.machine], rfl, ?_, [], _, rfl, nofun, .bare keyword _⟩
  rintro part m (_ | ⟨_, ⟨⟩⟩)
  exact member

theorem returnValue {keyword : Token} {e : Expr} (member : .ret keyword (some e) ∈ statements)
    (fuel : Nat) (env : Env) :
    Keeps statements (do
      note (.began (.ret keyword (some e)))
      let value ← evaluate fuel e env
      pure (.returning value)) := by
  intro s flow s' ends
  obtain ⟨⟨⟩, s₁, noted, ends₁⟩ := bind_eq_ok.mp ends
  obtain ⟨v, s₂, evaluates, ends₂⟩ := bind_eq_ok.mp ends₁
  cases noted
  cases ends₂
  refine ⟨[.began (.ret keyword (some e)) s.machine, .evaluated e v s'.machine],
    by rw [evaluate_eq_ok evaluates]; simp, ?_, [], _, rfl, nofun, .value keyword e _ v _⟩
  rintro part m (_ | ⟨_, _ | ⟨_, ⟨⟩⟩⟩)
  exact member

theorem sequence {execute : Stmt → Logging Entry Flow} {ss : List Stmt}
    (each : ∀ s ∈ ss, Keeps statements (execute s)) :
    Keeps statements (Run.sequence execute ss) := by
  induction ss with
  | nil => exact normal
  | cons s rest ih =>
    exact (each s List.mem_cons_self).andThen
      (ih fun later member => each later (List.mem_cons_of_mem _ member))

theorem repeatWhile {condition : Logging Entry Value} (inner : IsInner condition)
    (body : Keeps statements x) (rounds : Nat) :
    Keeps statements (runner.repeatWhile condition x rounds) := by
  induction rounds with
  | zero => exact stop _
  | succ rounds ih =>
    refine after inner fun v => ?_
    by_cases truthy : v.isTruthy = true
    · rw [if_pos truthy]
      exact body.andThen ih
    · rw [if_neg truthy]
      exact normal

end Keeps

theorem execute_keeps (fuel : Nat) (s : Stmt) (env : Env) :
    Keeps s.parts (execute fuel s env) := by
  induction fuel generalizing s env with
  | zero => exact .stop _
  | succ fuel ih =>
    have own := Stmt.self_mem_parts s
    cases s with
    | expression value =>
      exact .began own rfl (.after (isInner_evaluate fuel value env) fun _ => .normal)
    | print value =>
      exact .began own rfl (.after (isInner_evaluate fuel value env) fun _ =>
        .after (isInner_silent _) fun _ => .normal)
    | var name initializer =>
      cases initializer with
      | none => exact .began own rfl (.after (isInner_silent _) fun _ => .normal)
      | some value =>
        exact .began own rfl (.after (isInner_evaluate fuel value env) fun _ =>
          .after (isInner_silent _) fun _ => .normal)
    | block ss =>
      refine .began own rfl (.after (isInner_silent (Run.openScope env)) fun inner => .sequence fun s member => ?_)
      refine (ih s inner).weaken fun part inside => ?_
      exact List.mem_cons_of_mem _ (Stmt.mem_allParts.mpr ⟨s, member, inside⟩)
    | branch condition thenBranch elseBranch =>
      refine .began own rfl (.after (isInner_evaluate fuel condition env) fun v => ?_)
      by_cases truthy : v.isTruthy = true
      · rw [if_pos truthy]
        refine (ih thenBranch env).weaken fun part inside => ?_
        cases elseBranch <;> simp [Stmt.parts, inside]
      · rw [if_neg truthy]
        cases elseBranch with
        | none => exact .normal
        | some s => exact (ih s env).weaken fun part inside => by simp [Stmt.parts, inside]
    | loop condition body =>
      refine .began own rfl (.repeatWhile (isInner_evaluate fuel condition env) ?_ _)
      exact (ih body env).weaken fun part inside => List.mem_cons_of_mem _ inside
    | function declaration =>
      exact .began own rfl (.after (isInner_silent (Run.newFunction ⟨declaration, env, false⟩))
        fun _ => .after (isInner_silent _) fun _ => .normal)
    | ret keyword value =>
      cases value with
      | none => exact .bareReturn own
      | some e => exact .returnValue own fuel env
    | classDecl name superclass methods =>
      cases superclass with
      | none => exact .began own rfl (.after (isInner_silent _) fun _ => .normal)
      | some e =>
        exact .began own rfl (.after (isInner_evaluate fuel e env) fun _ =>
          .after (isInner_silent _) fun _ => .after (isInner_silent _) fun _ => .normal)

theorem flow_of_noReturn {fuel : Nat} {s : Stmt} {env : Env} {m m' : Machine} {flow : Flow}
    (none : ∀ part ∈ s.parts, part.isReturn = false)
    (ends : Run.execute fuel s env m = .ok flow m') : flow = .normal := by
  obtain ⟨s', ends', -⟩ := Forgets.eq_ok (execute_forgets fuel s env) (s := ⟨m, []⟩) ends
  obtain ⟨more, -, within, last⟩ := execute_keeps fuel s env _ _ _ ends'
  cases flow with
  | normal => rfl
  | returning v =>
    obtain ⟨before, last, rfl, -, returned⟩ := last
    cases returned with
    | bare keyword => cases none _ (within _ _ (List.mem_append_right _ List.mem_cons_self))
    | value keyword => cases none _ (within _ _ (List.mem_append_right _ List.mem_cons_self))

theorem program_eq_sequence {statements : List Stmt} (fuel : Nat)
    (none : ∀ part ∈ Stmt.allParts statements, part.isReturn = false) :
    Run.program fuel statements =
      (do
        let _ ← Run.sequence (fun s => Run.execute fuel s globals) statements
        pure ()) := by
  induction statements with
  | nil => rfl
  | cons s rest ih =>
    obtain ⟨first, later⟩ := List.forall_mem_append.mp none
    funext m
    simp only [Run.program_cons, Run.sequence, ih later, Bind.bind, EStateM.bind]
    cases ends : Run.execute fuel s globals m with
    | error reason m' => rfl
    | ok flow m' =>
      cases flow_of_noReturn first ends
      rfl

theorem body_keeps (fuel : Nat) (closure : Closure) (arguments : List Value) :
    Keeps (Stmt.allParts closure.declaration.body) (body fuel closure arguments) := by
  refine .after (isInner_silent _) fun env => .after (isInner_silent _) fun _ => ?_
  refine .sequence fun s member => (execute_keeps fuel s env).weaken fun part inside => ?_
  exact Stmt.mem_allParts.mpr ⟨s, member, inside⟩

theorem result_eq_ok {closure : Closure} {paren : Token} {flow : Flow} {m m' : Machine} {v : Value}
    (ends : (if closure.isInitializer then Run.boundReceiver closure paren
      else pure flow.result : Run Value) m = .ok v m') :
    m' = m ∧ (closure.isInitializer = false → v = flow.result) := by
  cases initializer : closure.isInitializer with
  | false =>
    rw [initializer] at ends
    cases ends
    exact ⟨rfl, fun _ => rfl⟩
  | true =>
    simp only [initializer, if_true, Run.boundReceiver, Run.read, Bind.bind, EStateM.bind] at ends
    cases bound : m.store.getAt? closure.env 0 "this" with
    | none =>
      rw [bound] at ends
      cases ends
    | some receiver =>
      rw [bound] at ends
      cases ends
      exact ⟨rfl, by simp⟩

theorem call_ends {fuel : Nat} {closure : Closure} {paren : Token} {arguments : List Value}
    {m m' : Machine} {v : Value}
    (ends : Run.callClosure (Run.execute fuel) closure paren arguments m = .ok v m') :
    ∃ flow log, call fuel closure paren arguments ⟨m, []⟩ = .ok (flow, v) ⟨m', log⟩ ∧
      Within (Stmt.allParts closure.declaration.body) log ∧ Ends flow m' log ∧
        (closure.isInitializer = false → v = flow.result) := by
  obtain ⟨⟨machine, log⟩, ends', rfl⟩ := Forgets.eq_ok (call_forgets fuel closure paren arguments)
    (s := ⟨m, []⟩) ends
  obtain ⟨⟨flow, v'⟩, s₁, calls, same⟩ := bind_eq_ok.mp ends'
  cases same
  obtain ⟨flow', s₂, runs, ends₂⟩ := bind_eq_ok.mp calls
  obtain ⟨result, s₃, gives, same⟩ := bind_eq_ok.mp ends₂
  cases same
  obtain ⟨gives, rfl⟩ := silent_eq_ok.mp gives
  obtain ⟨rfl, given⟩ := result_eq_ok gives
  obtain ⟨more, grown, within, last⟩ := body_keeps fuel closure arguments _ _ _ runs
  obtain rfl : s₂.log = more := grown
  exact ⟨flow, s₂.log, calls, within, last, given⟩

end Lox.Activation

namespace Lox

open Activation

/-- A return never escapes its function. No statement at the top level of an accepted text ends by
returning, so that nothing is lost where the flow is dropped. In every call that ends well the
activation begins statements of its own body only, and if one of them is a return, the first one
ends the body: nothing follows but its value, and the machine stays as it is then. -/
theorem returns_end_their_own_call :
    (∀ source firstId, IsAccepted source firstId → ∀ fuel,
      (∀ statement ∈ statementsOf source firstId, ∀ env m flow m',
        Run.execute fuel statement env m = .ok flow m' → flow = .normal) ∧
      Run.program fuel (statementsOf source firstId) = (do
        let _ ← Run.sequence (fun s => Run.execute fuel s globals) (statementsOf source firstId)
        pure ())) ∧
    ∀ fuel closure paren arguments m v m',
      Run.callClosure (Run.execute fuel) closure paren arguments m = .ok v m' →
        ∃ flow log, call fuel closure paren arguments ⟨m, []⟩ = .ok (flow, v) ⟨m', log⟩ ∧
          Within (Stmt.allParts closure.declaration.body) log ∧ Activation.Ends flow m' log ∧
            (closure.isInitializer = false → v = flow.result) := by
  refine ⟨fun source firstId accepted fuel => ?_, fun _ _ _ _ _ _ _ ends => call_ends ends⟩
  have none := Stmt.not_isReturn_of_resolve accepted.resolved
  refine ⟨fun statement member env m flow m' ends => flow_of_noReturn (fun part inside => ?_) ends,
    program_eq_sequence fuel none⟩
  exact none part (Stmt.mem_allParts.mpr ⟨statement, member, inside⟩)

def returnInLoop : FunctionDecl where
  name := ⟨.identifier, "f", 1⟩
  params := []
  body := [.loop (.literal (.bool true)) (.block [.ret ⟨.symbol .returnWord, "return", 1⟩ none]),
    .print (.literal .nil)]

theorem return_leaves_loop :
    IsAccepted "fun f() \x7b return; \x7d f();" 0 ∧
      (∀ statement ∈ statementsOf "fun f() \x7b return; \x7d f();" 0, ∀ flow m',
        Run.execute 5 statement globals (.initial (.fixed 0) none) = .ok flow m' → flow = .normal) ∧
      ∃ m' log,
        Run.callClosure (Run.execute 5) ⟨returnInLoop, globals, false⟩ ⟨.endOfInput, "", 1⟩ []
          (.initial (.fixed 0) none) = .ok .nil m' ∧
        call 5 ⟨returnInLoop, globals, false⟩ ⟨.endOfInput, "", 1⟩ []
          ⟨.initial (.fixed 0) none, []⟩ = .ok (.returning .nil, .nil) ⟨m', log⟩ ∧
        Activation.Ends (.returning .nil) m' log := by
  have accepted : IsAccepted "fun f() \x7b return; \x7d f();" 0 := isAccepted_iff.mpr (by cbv)
  obtain ⟨m', ends⟩ : ∃ m', Run.callClosure (Run.execute 5) ⟨returnInLoop, globals, false⟩
      ⟨.endOfInput, "", 1⟩ [] (.initial (.fixed 0) none) = .ok .nil m' := ⟨_, rfl⟩
  obtain ⟨program, calls⟩ := returns_end_their_own_call
  obtain ⟨flow, log, same, -, last, -⟩ := calls 5 _ _ _ _ _ _ ends
  obtain ⟨s, returning⟩ : ∃ s, call 5 ⟨returnInLoop, globals, false⟩ ⟨.endOfInput, "", 1⟩ []
      ⟨.initial (.fixed 0) none, []⟩ = .ok (.returning .nil, .nil) s := ⟨_, rfl⟩
  obtain ⟨⟨rfl, -⟩, rfl⟩ : ((flow, Value.nil) = (.returning .nil, .nil)) ∧ ⟨m', log⟩ = s := by
    simpa [same] using returning
  exact ⟨accepted, fun statement member flow m' =>
    (program _ 0 accepted 5).1 statement member globals _ flow m', m', log, ends, same, last⟩

end Lox
