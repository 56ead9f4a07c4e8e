import Lox.Proofs.Frame.Evaluation
import Lox.Proofs.Session.Receiver
import Lox.Proofs.Trace.Session

namespace Lox.Frame

open Lexical (learn)
open Traced (Event Observed)

/-- The names declared at the top level by statements that end well. -/
def declaredBy (fuel : Nat) : List Stmt → Machine → List String
  | [], _ => []
  | statement :: rest, m =>
    match Run.execute fuel statement globals m with
    | .ok _ m' => (declaredName statement).toList ++ declaredBy fuel rest m'
    | .error _ _ => []

def declaredIn (fuel : Nat) (source : String) (session : Session) : List String :=
  if (staticErrors source session.nextId).isEmpty then
    declaredBy fuel (statementsOf source session.nextId)
      { session.machine with
        locals := session.machine.locals.merge (localsOf source session.nextId) }
  else []

def declaredInAll (session : Session) : List (Nat × String) → List String
  | [] => []
  | (fuel, source) :: rest =>
    declaredIn fuel source session ++ declaredInAll (session.run fuel source).2 rest

variable {records : Records} {o : Observed}

theorem ofStopped_top (statement : Stmt) (env : Env) (scope : Nat) (name : String) :
    ¬ofStopped statement [] env scope name := by
  intro may
  rw [ofStopped] at may
  cases declared : declaredName statement with
  | some name' =>
    rw [declared] at may
    exact may.1 rfl
  | none =>
    rw [declared] at may
    exact may

theorem program_leads (fuel : Nat) (statements : List Stmt)
    (resolved : Stmt.AllResolved records [] statements) (sound : Sound records o.machine)
    (place : 0 < o.machine.store.scopes.size) :
    Leads (inScope 0) o (lastState (Traced.program fuel statements o)) ∧
      Sound records (lastState (Traced.program fuel statements o)).machine ∧
      ∀ name, (lastState (Traced.program fuel statements o)).machine.store.binds 0 name = true ↔
        o.machine.store.binds 0 name = true ∨ name ∈ declaredBy fuel statements o.machine := by
  induction statements generalizing o with
  | nil =>
    refine ⟨.refl _ o, sound, fun name => ?_⟩
    simp [declaredBy, Dialect.program, lastState, pure, EStateM.pure]
  | cons s rest ih =>
    have ends := (keeps fuel).2 s (.top o.machine.store globals) resolved.1 sound
    have same : onState Logged.machine (Traced.execute fuel s globals o) =
        Run.execute fuel s globals o.machine := ((Traced.follows_forgets.both fuel).2 s globals o).1
    have outside : s.after [] = [] := Reference.after_top s
    rw [declaredBy, ← same]
    simp only [Traced.program_cons, Bind.bind, EStateM.bind]
    cases result : Traced.execute fuel s globals o with
    | ok flow o' =>
      rw [result] at ends
      obtain ⟨leads, sound', behind⟩ := ends
      have leads' : Leads (inScope 0) o o' := leads.weaken fun scope name may =>
        (Option.some.inj (ofStatement_iff.mp may).2).symm
      have place' := Nat.lt_of_lt_of_le place leads.grows.size
      obtain ⟨leads'', sound'', names⟩ := ih (outside ▸ resolved.2) sound' place'
      have here : ∀ name, o'.machine.store.binds 0 name = true ↔
          o.machine.store.binds 0 name = true ∨ declaredName s = some name := by
        intro name
        constructor
        · intro bound
          exact (leads.grows.new 0 name place bound).imp_right fun may =>
            (ofStatement_iff.mp may).1
        · rintro (old | declared)
          · exact leads.grows.kept 0 name old
          · exact behind.declared name 0 declared rfl place
      refine ⟨leads'.trans leads'', sound'', fun name => ?_⟩
      rw [names, here, or_assoc]
      simp only [onState, List.mem_append, Option.mem_toList]
    | error reason o' =>
      rw [result] at ends
      obtain ⟨leads, sound'⟩ := ends
      have leads' : Leads nothing o o' :=
        leads.weaken fun scope name may => ofStopped_top s globals scope name may
      refine ⟨leads'.weaken fun _ _ => False.elim, sound', fun name => ?_⟩
      simp only [onState, lastState, List.not_mem_nil, or_false]
      rw [leads'.grows.sameNames 0 name place]

/-- What holds between the texts of a session. -/
structure IsFramed (session : Session) (records : Records) : Prop where
  sound : Sound records session.machine
  place : 0 < session.machine.store.scopes.size
  recorded : ∀ id token d, records id token d → id < session.nextId
  unused : ∀ id, session.nextId ≤ id → session.machine.locals[id]? = none

theorem Sound.learn {m : Machine} (h : Sound records m) {source : String} {firstId : Nat}
    (accepted : IsAccepted source firstId)
    (recorded : ∀ id token d, records id token d → id < firstId)
    (unused : ∀ id, firstId ≤ id → m.locals[id]? = none) :
    Sound (learn records (textSites source firstId))
      { m with locals := m.locals.merge (localsOf source firstId) } := by
  have grows : records.Grow (Lexical.learn records (textSites source firstId)) :=
    fun _ _ _ known => .inl known
  exact ⟨fun id token d => Lexical.learn_known recorded accepted unused (h.locals id token d),
    fun scope name v found => (h.bindings scope name v found).grow grows,
    fun object name v found => (h.fields object name v found).grow grows⟩

namespace IsFramed

variable {session : Session}

theorem initial (clock : Clock) (limit : Option Nat) :
    IsFramed (.initial clock limit) fun _ _ _ => False where
  sound := by
    refine ⟨fun _ _ _ known => known.elim, fun scope name v found => ?_, fun _ _ _ found => ?_⟩
    · obtain rfl := Machine.binding?_initial found
      trivial
    · cases found
  place := by
    have size : (Store.initial.define 0 "clock" (.native .clock)).scopes.size = 1 :=
      Store.size_define _ _ _ _
    exact size ▸ Nat.one_pos
  recorded _ _ _ known := known.elim
  unused _ _ := Std.TreeMap.getElem?_emptyc

theorem run (h : IsFramed session records) (fuel : Nat) (source : String) :
    (∃ records', IsFramed (session.run fuel source).2 records') ∧
      (∀ event ∈ (Traced.record fuel source session).trace, IsTidy event) ∧
      ∀ name, (session.run fuel source).2.machine.store.binds 0 name = true ↔
        session.machine.store.binds 0 name = true ∨ name ∈ declaredIn fuel source session := by
  have fresh := textSites_fresh source session.nextId
  have state : (session.run fuel source).2 = (Traced.record fuel source session).session :=
    (congrArg Prod.snd (Traced.record_eq fuel source session)).symm
  by_cases accepted : IsAccepted source session.nextId
  · let start : Observed :=
      ⟨{ session.machine with
          locals := session.machine.locals.merge (localsOf source session.nextId) }, []⟩
    obtain ⟨leads, sound, names⟩ := program_leads (o := start) fuel _
      (accepted.resolve.2 _ fun _ member => .inr member)
      (h.sound.learn accepted h.recorded h.unused) h.place
    rw [state, Traced.record_of_isAccepted accepted, declaredIn,
      if_pos (staticErrors_isEmpty.mpr accepted)]
    obtain ⟨more, trace, tidy⟩ := leads.events
    refine ⟨⟨_, sound, Nat.lt_of_lt_of_le h.place leads.grows.size,
      Lexical.learn_recorded h.recorded, fun id later => ?_⟩, fun event member => ?_, names⟩
    · have merged := accepted.getElem?_merge_of_later h.unused later
      exact leads.locals ▸ merged
    · change event ∈ (lastState (Traced.program fuel (statementsOf source session.nextId)
        start)).log at member
      rw [trace] at member
      exact tidy event member
  · rw [state, Traced.record_of_not_isAccepted accepted, declaredIn,
      if_neg (mt staticErrors_isEmpty.mp accepted)]
    refine ⟨⟨records, h.sound, h.place, fun id token d known => ?_, fun id later => ?_⟩, by simp,
      by simp⟩
    · exact Nat.lt_of_lt_of_le (h.recorded id token d known) fresh.ordered
    · exact h.unused id (Nat.le_trans fresh.ordered later)

theorem runAll (h : IsFramed session records) (texts : List (Nat × String)) :
    (∀ event ∈ Traced.recordAll session texts, IsTidy event) ∧
      ∀ name, (session.runAll texts).machine.store.binds 0 name = true ↔
        session.machine.store.binds 0 name = true ∨ name ∈ declaredInAll session texts := by
  induction texts generalizing session records with
  | nil => exact ⟨by simp [Traced.recordAll], by simp [declaredInAll, Session.runAll]⟩
  | cons text rest ih =>
    obtain ⟨fuel, source⟩ := text
    obtain ⟨⟨records', behind⟩, tidy, names⟩ := h.run fuel source
    obtain ⟨tidy', names'⟩ := ih behind
    refine ⟨fun event member => ?_, fun name => ?_⟩
    · exact (List.mem_append.mp member).elim (tidy event) (tidy' event)
    · rw [Session.runAll, names', names, declaredInAll, List.mem_append, or_assoc]

end IsFramed

end Lox.Frame

namespace Lox

open Lox.Frame Lox.Traced

/-- Names never leak between scopes. Whatever texts a session is given and however they end, a
statement that declares nothing and the body of any call leave the names of all earlier scopes as
they were, a declaration adds at most its own name to the scope it runs in, and the global names are
those of the declarations at the top level that ended well. -/
theorem names_stay_in_scope (clock : Clock) (limit : Option Nat) (texts : List (Nat × String)) :
    (∀ statement env normally before after,
        .executed statement env normally before after ∈
          recordAll (Session.initial clock limit) texts →
        (declaredName statement = none → SameNames before after) ∧
          ∀ name, declaredName statement = some name → Grows (own env name) before after) ∧
      (∀ closure before after,
        .called closure before after ∈ recordAll (Session.initial clock limit) texts →
          SameNames before after) ∧
        ∀ name, ((Session.initial clock limit).runAll texts).machine.store.binds 0 name = true ↔
          name = "clock" ∨ name ∈ declaredInAll (Session.initial clock limit) texts := by
  obtain ⟨tidy, names⟩ := (IsFramed.initial clock limit).runAll texts
  refine ⟨fun statement env normally before after member => ?_,
    fun closure before after member => ?_, fun name => ?_⟩
  · have grows : Grows (ofStatement statement env) before after := tidy _ member
    rw [ofStatement] at grows
    refine ⟨fun none => ?_, fun name declares => ?_⟩
    · rw [none] at grows
      exact grows.sameNames
    · rwa [declares] at grows
  · have grows : Grows nothing before after := tidy _ member
    exact grows.sameNames
  · have first : (Session.initial clock limit).machine.store.binds 0 name = true ↔
        name = "clock" := by
      change (Store.initial.define 0 "clock" (.native .clock)).binds 0 name = true ↔ _
      rw [Store.binds, Store.binding?_define_initial]
      by_cases same : name = "clock" <;> simp [same]
    rw [names, first]

end Lox
