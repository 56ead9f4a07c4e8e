import Lox.Proofs.Loops.Evaluation
import Lox.Proofs.Loops.Fuel
import Lox.Proofs.Syntax.Spells

namespace Lox

open Shift

/-- A loop with a header, as the grammar has it. -/
structure ForLoop where
  initializer : Option Stmt
  condition : Option Expr
  increment : Option Expr
  body : Stmt
  initializes : ∀ s ∈ initializer, s.IsInitializer ∧ s.WellFormed
  tests : ∀ e ∈ condition, e.WellFormed
  steps : ∀ e ∈ increment, e.WellFormed
  isStatement : body.isStatement = true
  inside : body.WellFormed

namespace ForLoop

def tree (loop : ForLoop) : Stmt :=
  .forLoop loop.initializer loop.condition loop.increment loop.body

theorem wellFormed_tree (loop : ForLoop) : loop.tree.WellFormed :=
  Stmt.forLoop_wellFormed loop.initializes loop.tests loop.steps loop.isStatement loop.inside

/-- How deep each part of the loop may nest, and how many rounds there may be. -/
structure Fuels where
  header : Nat
  test : Nat
  body : Nat
  step : Nat
  count : Nat

def Fuels.all (fuel : Nat) : Fuels := ⟨fuel, fuel, fuel, fuel, fuel⟩

def test (loop : ForLoop) (fuel : Nat) (header : Env) : Run Bool :=
  match loop.condition with
  | none => pure true
  | some e => do
    let value ← Run.evaluate fuel e header
    pure value.isTruthy

def step (loop : ForLoop) (fuel : Nat) (header : Env) : Run Unit :=
  match loop.increment with
  | none => pure ()
  | some e => do
    let _ ← Run.evaluate fuel e header
    pure ()

/-- The test comes before every round, and the increment after every body that ended normally. -/
def repeatRounds (test : Run Bool) (body : Run Flow) (step : Run Unit) : Nat → Run Flow
  | 0 => Run.stop .outOfFuel
  | count + 1 => do
    if ← test then
      match ← body with
      | .normal => do
        step
        repeatRounds test body step count
      | .returning value => pure (.returning value)
    else pure .normal

def rounds (loop : ForLoop) (fuels : Fuels) (header : Env) : Run Flow :=
  repeatRounds (loop.test fuels.test header) (Run.execute fuels.body loop.body header)
    (loop.step fuels.step header) fuels.count

/-- The loop as it is written. What the initializer declares is in a scope around all rounds. -/
def runWith (loop : ForLoop) (fuels : Fuels) (env : Env) : Run Flow :=
  match loop.initializer with
  | none => loop.rounds fuels env
  | some first => do
    let header ← Run.openScope env
    match ← Run.execute fuels.header first header with
    | .normal => loop.rounds fuels header
    | .returning value => pure (.returning value)

def run (loop : ForLoop) (fuel : Nat) (env : Env) : Run Flow := loop.runWith (.all fuel) env

structure Fuels.Le (f g : Fuels) : Prop where
  header : f.header ≤ g.header
  test : f.test ≤ g.test
  body : f.body ≤ g.body
  step : f.step ≤ g.step
  count : f.count ≤ g.count

theorem Fuels.all_le {fuel more : Nat} (enough : fuel ≤ more) : (Fuels.all fuel).Le (.all more) :=
  ⟨enough, enough, enough, enough, enough⟩

section Fuel

open Run (Fuelled)

theorem repeatRounds_fuelled {test test' : Run Bool} {body body' : Run Flow} {step step' : Run Unit}
    (tests : Fuelled test test') (bodies : Fuelled body body') (steps : Fuelled step step')
    {count more : Nat} (enough : count ≤ more) :
    Fuelled (repeatRounds test body step count) (repeatRounds test' body' step' more) := by
  induction count generalizing more with
  | zero => exact .outOfFuel
  | succ count ih =>
    obtain ⟨more, rfl⟩ : ∃ k, more = k + 1 := ⟨more - 1, by omega⟩
    refine tests.bind fun begins => .ite (bodies.bind fun flow => ?_) (.refl _)
    cases flow with
    | normal => exact steps.bind fun _ => ih (Nat.le_of_succ_le_succ enough)
    | returning value => exact .refl _

variable (loop : ForLoop) {f g : Fuels}

theorem rounds_fuelled (le : f.Le g) (header : Env) :
    Fuelled (loop.rounds f header) (loop.rounds g header) := by
  refine repeatRounds_fuelled ?_ ((Run.more_fuel le.body).2 loop.body header) ?_ le.count
  · unfold test
    cases loop.condition with
    | none => exact .refl _
    | some e => exact ((Run.more_fuel le.test).1 e header).bind fun _ => .refl _
  · unfold step
    cases loop.increment with
    | none => exact .refl _
    | some e => exact ((Run.more_fuel le.step).1 e header).bind fun _ => .refl _

theorem runWith_fuelled (le : f.Le g) (env : Env) :
    Fuelled (loop.runWith f env) (loop.runWith g env) := by
  unfold runWith
  cases loop.initializer with
  | none => exact loop.rounds_fuelled le env
  | some first =>
    refine (Fuelled.refl _).bind fun header => ?_
    refine ((Run.more_fuel le.header).2 first header).bind fun flow => ?_
    cases flow with
    | normal => exact loop.rounds_fuelled le header
    | returning value => exact .refl _

theorem run_fuelled (env : Env) (fuel more : Nat) (enough : fuel ≤ more) :
    Fuelled (loop.run fuel env) (loop.run more env) :=
  loop.runWith_fuelled (Fuels.all_le enough) env

end Fuel

def headerShift (loop : ForLoop) (R : Shift) : Shift :=
  match loop.initializer with
  | none => R
  | some _ => Enter R

/-- An increment takes a block around every round, which the loop as it is written does without. -/
def roundShift (loop : ForLoop) (R : Shift) : Shift :=
  match loop.increment with
  | none => R
  | some _ => Detour R

/-- The parts of one loop, in the blocks that the parser makes, are copied in the other. -/
structure PartCopies (L : Distances) (R : Shift) (loop copy : ForLoop) : Prop where
  initializer : Option.Rel (Stmt.Copies L (Enter R)) loop.initializer copy.initializer
  condition : Expr.OptionCopies L (loop.headerShift R) loop.condition copy.condition
  increment : Expr.OptionCopies L (Detour (loop.headerShift R)) loop.increment copy.increment
  body : loop.body.Copies L (loop.roundShift (loop.headerShift R)) copy.body

section Simulation

open Run (Moved)

variable {L : Distances} {W : Pairing} {R : Shift} {env env' : Env} {loop copy : ForLoop}

def round (body : Run Flow) (step : Run Unit) : Run Flow := do
  match ← body with
  | .normal => do
    step
    pure .normal
  | .returning value => pure (.returning value)

theorem repeatRounds_succ (test : Run Bool) (body : Run Flow) (step : Run Unit) (count : Nat) :
    repeatRounds test body step (count + 1) = (do
      if ← test then
        match ← round body step with
        | .normal => repeatRounds test body step count
        | .returning value => pure (.returning value)
      else pure .normal) := by
  simp only [repeatRounds, round, bind_assoc]
  refine congrArg _ (funext fun begins => ?_)
  cases begins with
  | false => rfl
  | true =>
    simp only [if_true]
    refine congrArg _ (funext fun flow => ?_)
    cases flow <;> simp

theorem repeat_moved {test : Run Value} {rounds : Run Flow} {test' : Run Bool} {body' : Run Flow}
    {step' : Run Unit}
    (tests : ∀ W', W.Grows W' → Moved L W' (fun _ v begins => begins = v.isTruthy) test test')
    (each : ∀ W', W.Grows W' → Moved L W' (Flow.Moved L) rounds (round body' step')) (count : Nat) :
    Moved L W (Flow.Moved L) (Run.repeatWhile test rounds count)
      (repeatRounds test' body' step' count) := by
  induction count generalizing W with
  | zero => exact .stop _
  | succ count ih =>
    rw [repeatRounds_succ]
    refine (tests W (.refl W)).bind fun W₁ v begins grows₁ same => .ite same ?_ (.pure .normal)
    refine (each W₁ grows₁).bind fun W₂ flow flow' grows₂ ended => ?_
    cases ended with
    | normal =>
      have grows := grows₁.trans grows₂
      exact ih (fun W' further => tests W' (grows.trans further))
        fun W' further => each W' (grows.trans further)
    | returning value => exact .pure (.returning value)

theorem test_moved (place : EnvMoved W R env env')
    (h : Expr.OptionCopies L R loop.condition copy.condition) (fuel : Nat) :
    Moved L W (fun _ v begins => begins = v.isTruthy)
      (Run.evaluate (fuel + 1) (loop.condition.getD (.literal (.bool true))) env)
      (copy.test (fuel + 1) env') := by
  unfold test
  generalize loop.condition = condition at h ⊢
  generalize copy.condition = condition' at h ⊢
  cases h with
  | none => exact .pure rfl
  | some inside =>
    exact ((Run.moved L (fuel + 1)).1 place inside).after fun W' v v' _ value =>
      .pure value.isTruthy

/-- How deep the body may nest if a round may nest three levels deeper than this. -/
def bodyFuel (loop : ForLoop) (fuel : Nat) : Nat :=
  match loop.increment with
  | none => fuel + 3
  | some _ => fuel + 2

theorem le_bodyFuel (loop : ForLoop) (fuel : Nat) :
    fuel ≤ loop.bodyFuel fuel ∧ loop.bodyFuel fuel ≤ fuel + 3 := by
  unfold bodyFuel
  split <;> omega

def roundTree (loop : ForLoop) : Stmt :=
  match loop.increment with
  | some e => .block [loop.body, .expression e]
  | none => loop.body

theorem round_moved (h : PartCopies L R loop copy)
    (place : EnvMoved W (loop.headerShift R) env env') (fuel : Nat) :
    Moved L W (Flow.Moved L) (Run.execute (fuel + 3) loop.roundTree env)
      (round (Run.execute (loop.bodyFuel fuel) copy.body env') (copy.step (fuel + 1) env')) := by
  have body := h.body
  have increment := h.increment
  unfold roundTree bodyFuel round step
  unfold roundShift at body
  generalize loop.increment = step at body increment ⊢
  generalize copy.increment = step' at increment ⊢
  cases increment with
  | none =>
    refine ((Run.moved L (fuel + 3)).2 place body).after fun W' flow flow' grows ended => ?_
    cases ended with
    | normal => exact .pure .normal
    | returning value => exact .pure (.returning value)
  | some inside =>
    refine .spareScope env fun scope => ?_
    have within := place.detour scope
    refine ((Run.moved L (fuel + 2)).2 within body).bind fun W' flow flow' grows ended => ?_
    cases ended with
    | normal =>
      have stepped := (Run.moved L (fuel + 1)).1 (within.mono grows) inside
      simp only [Run.sequence, Run.execute_succ, Dialect.executeStep, bind_assoc, pure_bind]
      exact stepped.bind fun _ _ _ _ _ => .pure .normal
    | returning value => exact .pure (.returning value)

def roundsTree (loop : ForLoop) : Stmt :=
  .loop (loop.condition.getD (.literal (.bool true))) loop.roundTree

def headed (initializer : Option Stmt) (rounds : Stmt) : Stmt :=
  match initializer with
  | some first => .block [first, rounds]
  | none => rounds

theorem tree_eq (loop : ForLoop) : loop.tree = headed loop.initializer loop.roundsTree := rfl

theorem rounds_moved (h : PartCopies L R loop copy)
    (place : EnvMoved W (loop.headerShift R) env env') (fuel header : Nat) :
    Moved L W (Flow.Moved L) (Run.execute (fuel + 4) loop.roundsTree env)
      (copy.rounds ⟨header, fuel + 3, loop.bodyFuel fuel, fuel + 1, fuel + 3⟩ env') :=
  repeat_moved (fun _ grows => test_moved (place.mono grows) h.condition (fuel + 2))
    (fun _ grows => round_moved h (place.mono grows) fuel) (fuel + 3)

/-- The tree and the loop as it is written end in the same way, with about the same fuel. -/
theorem tree_moved (h : PartCopies L R loop copy) (place : EnvMoved W R env env') (fuel : Nat) :
    ∃ fuels : Fuels, (Fuels.all fuel).Le fuels ∧ fuels.Le (.all (fuel + 5)) ∧
      Moved L W (Flow.Moved L) (Run.execute (fuel + 5) loop.tree env)
        (copy.runWith fuels env') := by
  have initializer := h.initializer
  have run {W : Pairing} {env env' : Env} (place : EnvMoved W (loop.headerShift R) env env') :=
    rounds_moved h place
  unfold headerShift at run
  rw [tree_eq]
  unfold headed runWith
  generalize loop.initializer = first at initializer run ⊢
  generalize copy.initializer = first' at initializer ⊢
  cases initializer with
  | none =>
    obtain ⟨low, high⟩ := loop.le_bodyFuel (fuel + 1)
    refine ⟨⟨fuel, fuel + 4, loop.bodyFuel (fuel + 1), fuel + 2, fuel + 4⟩, ?_, ?_,
      run place (fuel + 1) fuel⟩
    · constructor <;> simp only [Fuels.all] <;> omega
    · constructor <;> simp only [Fuels.all] <;> omega
  | some declared =>
    obtain ⟨low, high⟩ := loop.le_bodyFuel fuel
    refine ⟨⟨fuel + 4, fuel + 3, loop.bodyFuel fuel, fuel + 1, fuel + 3⟩, ?_, ?_, ?_⟩
    · constructor <;> simp only [Fuels.all] <;> omega
    · constructor <;> simp only [Fuels.all] <;> omega
    refine (Moved.openScope place).bind fun W₁ header header' grows₁ entered => ?_
    refine ((Run.moved L (fuel + 4)).2 entered declared).bind fun W₂ flow flow' grows₂ ended => ?_
    cases ended with
    | normal =>
      have behind := run (entered.mono grows₂) fuel (fuel + 4)
      have alone : Run.sequence (fun s => Run.execute (fuel + 4) s header) [loop.roundsTree] =
          Run.execute (fuel + 4) loop.roundsTree header := by
        simp only [Run.sequence]
        refine Eq.trans (congrArg _ (funext fun flow => ?_)) (bind_pure _)
        cases flow <;> rfl
      rw [← alone] at behind
      exact behind
    | returning value => exact .pure (.returning value)

/-- With enough fuel the tree and the loop as it is written come to the same, or neither comes to
anything. -/
theorem tree_comesTo (h : PartCopies L R loop copy) (place : EnvMoved W R env env') {m m' : Machine}
    (machine : m.Moved L W m') :
    Run.ComeToMoved L W (Flow.Moved L) (fun fuel => Run.execute fuel loop.tree env)
      (fun fuel => copy.run fuel env') m m' := by
  constructor
  · rintro result ⟨ends, enough, reached⟩
    obtain ⟨fuels, -, below, moved⟩ := tree_moved h place enough
    have same := moved m m' machine
    have there : Run.execute (enough + 5) loop.tree env m = result :=
      reached (enough + 5) (Nat.le_add_right enough 5)
    rw [there] at same
    have ends' := mt same.ranOut.mpr ends
    have steady : copy.run (enough + 5) env' m' = copy.runWith fuels env' m' :=
      copy.runWith_fuelled below env' m' ends'
    rw [← steady] at same ends'
    exact ⟨_, Run.comesTo_of_fuelled (copy.run_fuelled env') ends', same⟩
  · rintro result' ⟨ends', enough, reached⟩
    obtain ⟨fuels, above, -, moved⟩ := tree_moved h place enough
    have same := moved m m' machine
    have there : copy.run enough env' m' = result' := reached enough (Nat.le_refl enough)
    have steady : copy.runWith fuels env' m' = copy.run enough env' m' :=
      copy.runWith_fuelled above env' m' (by rwa [← there] at ends')
    rw [steady, there] at same
    have ends := mt same.ranOut.mp ends'
    have steady (fuel more : Nat) (enough : fuel ≤ more) :=
      (Run.more_fuel enough).2 loop.tree env
    exact ⟨_, Run.comesTo_of_fuelled steady ends, same⟩

end Simulation

end ForLoop

end Lox
