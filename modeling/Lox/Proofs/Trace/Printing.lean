import Lox.Proofs.Trace.Evaluation
import Lox.Text.Lines

namespace Lox

def joinLines (texts : List String) : String := String.join (texts.map (· ++ "\n"))

theorem joinLines_snoc (texts : List String) (text : String) :
    joinLines (texts ++ [text]) = joinLines texts ++ text ++ "\n" := by
  simp [joinLines, String.join, String.append_assoc]

theorem toList_joinLines (texts : List String) :
    (joinLines texts).toList = (texts.map fun text => text.toList ++ ['\n']).flatten := by
  simp [joinLines, List.flatMap_def, Function.comp_def]

theorem splitLines_append {line : List Char} (single : '\n' ∉ line) (rest : List Char) :
    splitLines (line ++ '\n' :: rest) = (line ++ ['\n']) :: splitLines rest := by
  induction line with
  | nil => simp [splitLines]
  | cons c line ih =>
    rw [List.mem_cons, not_or] at single
    simp [splitLines, Ne.symm single.1, ih single.2]

theorem splitLines_joinLines {texts : List String} (single : ∀ text ∈ texts, '\n' ∉ text.toList) :
    splitLines (joinLines texts).toList = texts.map fun text => text.toList ++ ['\n'] := by
  rw [toList_joinLines]
  induction texts with
  | nil => rfl
  | cons text rest ih =>
    obtain ⟨first, others⟩ := List.forall_mem_cons.mp single
    simp only [List.map_cons, List.flatten_cons, List.append_assoc, List.cons_append,
      List.nil_append]
    rw [splitLines_append first, ih others]

theorem count_joinLines {texts : List String} (single : ∀ text ∈ texts, '\n' ∉ text.toList) :
    (joinLines texts).toList.count '\n' = texts.length := by
  rw [toList_joinLines]
  induction texts with
  | nil => rfl
  | cons text rest ih =>
    obtain ⟨first, others⟩ := List.forall_mem_cons.mp single
    simp [ih others, List.count_eq_zero.mpr first]

namespace Sink

/-- A sink that accepts everything, with these lines on it. -/
def holding (texts : List String) : Sink :=
  ⟨joinLines texts, (joinLines texts).toList.count '\n', none⟩

theorem append_holding (texts : List String) (text : String) :
    ((holding texts).append text).append "\n" = holding (texts ++ [text]) := by
  simp [holding, append, joinLines_snoc, Nat.add_assoc]

end Sink

theorem Run.printLine_of_accepts {m : Machine} {text : String} (first : m.sink.accepts text = true)
    (second : (m.sink.append text).accepts "\n" = true) :
    Run.printLine text m = .ok () (m.printingTo ((m.sink.append text).append "\n")) := by
  simp [Run.printLine, Bind.bind, EStateM.bind, Run.write, first, second, Machine.printingTo]

theorem Sink.accepts_of_unlimited {sink : Sink} (h : sink.limit = none) (text : String) :
    sink.accepts text = true := by
  simp [accepts, isClosed, h]

namespace Traced

open Logging (silent recording)

def Event.print? : Event → Option (String × Machine)
  | printed text machine => some (text, machine)
  | _ => none

def prints (trace : List Event) : List (String × Machine) := trace.filterMap Event.print?

theorem prints_printed (trace : List Event) (text : String) (m : Machine) :
    prints (trace ++ [.printed text m]) = prints trace ++ [(text, m)] := by
  simp [prints, Event.print?]

theorem prints_append (trace more : List Event) :
    prints (trace ++ more) = prints trace ++ prints more :=
  List.filterMap_append

theorem prints_mono {trace trace' : List Event} (h : trace <+: trace') :
    prints trace <+: prints trace' := h.filterMap _

/-- The sink holds what was printed, and it held at every print what was printed before. -/
structure Written (o : Observed) : Prop where
  now : o.machine.sink = .holding ((prints o.log).map Prod.fst)
  earlier : ∀ i (h : i < (prints o.log).length),
    (prints o.log)[i].2.sink = .holding (((prints o.log).map Prod.fst).take i)

def KeepsWritten (α : Type) (x : Tracing α) (_ : Run α) : Prop :=
  ∀ o, Written o → Written (lastState (x o))

variable {α : Type}

theorem Written.of_silent {x : Run α} (quiet : x.IsQuiet) {o : Observed} (h : Written o) :
    Written (lastState (silent x o)) := by
  have sink := quiet.sink o.machine
  simp only [silent]
  cases ends : x o.machine with
  | ok a m =>
    rw [ends] at sink
    exact ⟨sink.trans h.now, h.earlier⟩
  | error reason m =>
    rw [ends] at sink
    exact ⟨sink.trans h.now, h.earlier⟩

theorem Written.printLine {o : Observed} (h : Written o) (text : String) :
    runner.around (.printing text) (runner.step (Run.printLine text)) o = .ok ()
      ⟨o.machine.printingTo (.holding ((prints o.log).map Prod.fst ++ [text])),
        o.log ++ [.printed text o.machine]⟩ := by
  have unlimited : o.machine.sink.limit = none := by
    rw [h.now]
    rfl
  have unlimited' : (o.machine.sink.append text).limit = none := unlimited
  have line := Run.printLine_of_accepts (Sink.accepts_of_unlimited unlimited text)
    (Sink.accepts_of_unlimited unlimited' "\n")
  rw [h.now, Sink.append_holding] at line
  change silent (Run.printLine text) { o with log := o.log ++ [.printed text o.machine] } = _
  simp only [silent, line]

theorem Written.printed {o : Observed} (h : Written o) (text : String) :
    Written ⟨o.machine.printingTo (.holding ((prints o.log).map Prod.fst ++ [text])),
      o.log ++ [.printed text o.machine]⟩ := by
  refine ⟨by rw [prints_printed, List.map_append]; rfl, ?_⟩
  simp only [prints_printed, List.map_append]
  intro i inside
  rw [List.take_append_of_le_length (by simpa [Nat.lt_succ_iff] using inside)]
  by_cases old : i < (prints o.log).length
  · rw [List.getElem_append_left old]
    exact h.earlier i old
  · have last : i = (prints o.log).length := by
      simp only [List.length_append, List.length_singleton] at inside
      omega
    subst last
    rw [List.take_of_length_le (by simp)]
    simp [h.now]

theorem Written.of_silent_events {o : Observed} (h : Written o) {more : List Event}
    (silent : prints more = []) : Written { o with log := o.log ++ more } := by
  have same : prints (o.log ++ more) = prints o.log := by
    rw [prints_append, silent, List.append_nil]
  exact ⟨by simp only [same]; exact h.now, by simp only [same]; exact h.earlier⟩

theorem around_eq {activity : Activity α} (other : activity.isPrinting = false) (x : Tracing α)
    (o : Observed) : ∃ more, prints more = [] ∧
      around activity x o = onState (fun o' => { o' with log := o'.log ++ more }) (x o) := by
  have recording_eq {β : Type} (event : Bool → Store → Store → Event) (x : Tracing β)
      (silent : ∀ normally before after, (event normally before after).print? = none) :
      ∃ more, prints more = [] ∧
        recording event x o = onState (fun o' => { o' with log := o'.log ++ more }) (x o) := by
    simp only [recording]
    cases x o with
    | ok a o' => exact ⟨[_], by simp [prints, silent], rfl⟩
    | error reason o' => exact ⟨[_], by simp [prints, silent], rfl⟩
  have same {β : Type} (x : Tracing β) : ∃ more, prints more = [] ∧
      x o = onState (fun o' => { o' with log := o'.log ++ more }) (x o) := by
    refine ⟨[], rfl, ?_⟩
    cases x o <;> simp [onState]
  cases activity with
  | printing text => cases other
  | statement s env => exact recording_eq (.executed s env) x fun _ _ _ => rfl
  | calling closure => exact recording_eq (fun _ => .called closure) x fun _ _ _ => rfl
  | _ => exact same x

theorem follows_keepsWritten : runner.Follows KeepsWritten where
  pure _ := fun _ h => h
  bind {α β x y f g} first second := by
    intro o h
    have start := first o h
    simp only [Bind.bind, EStateM.bind]
    cases ends : x o with
    | ok a o' =>
      rw [ends] at start
      exact second a o' start
    | error reason o' =>
      rw [ends] at start
      exact start
  quiet quiet := fun o h => h.of_silent quiet
  printLine text := by
    intro o h
    rw [h.printLine text]
    exact h.printed text
  around other keeps := by
    intro o h
    obtain ⟨more, silent, same⟩ := around_eq other _ o
    change Written (lastState (around _ _ o))
    rw [same, lastState_onState]
    exact (keeps o h).of_silent_events silent

end Traced

end Lox
