import Mathlib.Data.List.Pairwise
import Lox.Proofs.Resolution.Entries
import Lox.Proofs.Resolution.Lexical
import Lox.Proofs.Session.Steps

namespace Lox

/-- What reading returns. -/
inductive Tree where
  | program (statements : List Stmt)
  | expression (e : Expr)

namespace Tree

def ids : Tree → List Nat
  | program statements => Stmt.allIds statements
  | expression e => e.ids

/-- The distances that go on record when the tree is run. -/
def locals : Tree → Locals
  | program statements => (resolve statements).locals
  | expression _ => ∅

theorem mem_ids_of_locals {tree : Tree} {id d : Nat} (found : tree.locals[id]? = some d) :
    id ∈ tree.ids := by
  cases tree with
  | program statements => exact mem_ids_of_resolved found
  | expression e => cases Std.TreeMap.getElem?_emptyc.symm.trans found

end Tree

namespace Session

def runTree (session : Session) (fuel : Nat) : Tree → Session
  | .program statements =>
    (session.perform session.nextId
      (Run.interpret fuel statements (resolve statements).locals)).2
  | .expression e => (session.perform session.nextId (Run.evaluate fuel e globals)).2

variable (session : Session) (fuel : Nat) (tree : Tree)

theorem runTree_nextId : (session.runTree fuel tree).nextId = session.nextId := by
  cases tree <;> rfl

theorem getElem?_runTree (id : Nat) : (session.runTree fuel tree).machine.locals[id]? =
    tree.locals[id]?.or session.machine.locals[id]? := by
  cases tree with
  | program statements =>
    have kept := (Run.isSteady_program fuel statements).locals
      { session.machine with
        locals := session.machine.locals.merge (resolve statements).locals }
    rw [runTree, perform_eq]
    exact (congrArg (·[id]?) kept).trans (Locals.getElem?_merge ..)
  | expression e =>
    have kept := (Run.isSteady_evaluate fuel e globals).locals session.machine
    rw [runTree, perform_eq, Tree.locals, Std.TreeMap.getElem?_emptyc, Option.none_or]
    exact congrArg (·[id]?) kept

end Session

structure Readings where
  session : Session
  trees : List Tree

namespace Readings

/-- A tree is run by its place among those read so far. -/
inductive Step where
  | program (tokens : List Token)
  | expression (tokens : List Token)
  | run (fuel place : Nat)

def initial (clock : Clock) (limit : Option Nat) : Readings := ⟨.initial clock limit, []⟩

def ids (r : Readings) : List Nat := r.trees.flatMap Tree.ids

def read (r : Readings) (nextId : Nat) (trees : List Tree) : Readings :=
  ⟨{ r.session with nextId := nextId }, r.trees ++ trees⟩

def take (r : Readings) : Step → Readings
  | .program tokens =>
    let parsed := parse tokens r.session.nextId
    r.read parsed.nextId [.program parsed.statements]
  | .expression tokens =>
    let parsed := parseExpression tokens r.session.nextId
    match parsed.result with
    | .ok e => r.read parsed.nextId [.expression e]
    | .error _ => r.read parsed.nextId []
  | .run fuel place =>
    match r.trees[place]? with
    | some tree => { r with session := r.session.runTree fuel tree }
    | none => r

def after (r : Readings) (steps : List Step) : Readings := steps.foldl take r

theorem after_append (r : Readings) (first second : List Step) :
    r.after (first ++ second) = (r.after first).after second :=
  List.foldl_append

theorem exists_after_take (r : Readings) (step : Session.Step) :
    ∃ steps, (r.after steps).session = r.session.take step := by
  cases step with
  | run fuel source =>
    by_cases accepted : IsAccepted source r.session.nextId
    · refine ⟨[.program (tokensOf (scan source)), .run fuel r.trees.length], ?_⟩
      rw [Session.take, Session.run_of_isAccepted fuel accepted]
      simp only [after, List.foldl_cons, List.foldl_nil, take, read, List.getElem?_concat_length]
      rfl
    · refine ⟨[.program (tokensOf (scan source))], ?_⟩
      rw [Session.take, Session.run_of_not_isAccepted fuel accepted]
      rfl
  | evaluate fuel source =>
    rw [Session.take, Session.evaluate_eq]
    split
    · cases parsed : (parseExpression (tokensOf (scan source)) r.session.nextId).result with
      | ok e =>
        refine ⟨[.expression (tokensOf (scan source)), .run fuel r.trees.length], ?_⟩
        simp only [after, List.foldl_cons, List.foldl_nil, take, parsed, read,
          List.getElem?_concat_length]
        rfl
      | error errors =>
        refine ⟨[.expression (tokensOf (scan source))], ?_⟩
        simp only [after, List.foldl_cons, List.foldl_nil, take, parsed, read]
    · exact ⟨[], rfl⟩

theorem exists_after (r : Readings) (steps : List Session.Step) :
    ∃ readings, (r.after readings).session = r.session.after steps := by
  induction steps generalizing r with
  | nil => exact ⟨[], rfl⟩
  | cons step rest ih =>
    obtain ⟨first, taken⟩ := r.exists_after_take step
    obtain ⟨others, behind⟩ := ih (r.after first)
    exact ⟨first ++ others, by rw [after_append, behind, taken]; rfl⟩

/-- The ids are different, and each distance on record is that of a tree that was read. -/
structure Sound (r : Readings) : Prop where
  fresh : Parser.Fresh 0 r.session.nextId r.ids
  recorded : ∀ id d : Nat, r.session.machine.locals[id]? = some d →
    ∃ tree ∈ r.trees, tree.locals[id]? = some d

namespace Sound

variable {r : Readings} {tree tree' : Tree} {id d : Nat}

theorem initial (clock : Clock) (limit : Option Nat) : (initial clock limit).Sound where
  fresh := ⟨Nat.le_refl _, fun _ => Nat.zero_le _, nofun⟩
  recorded _ _ found := by cases Std.TreeMap.getElem?_emptyc.symm.trans found

theorem distinct (h : r.Sound) : r.ids.Nodup := List.nodup_iff_count_le_one.mpr h.fresh.distinct

theorem tree_unique (h : r.Sound) (member : tree ∈ r.trees) (member' : tree' ∈ r.trees)
    (found : id ∈ tree.ids) (found' : id ∈ tree'.ids) : tree = tree' := by
  have symmetric : Std.Symm (Function.onFun List.Disjoint Tree.ids) :=
    ⟨fun _ _ disjoint _ found' found => disjoint found found'⟩
  by_contra apart
  exact (List.nodup_flatMap.mp h.distinct).2.forall member member' apart found found'

/-- What is on record is not different in any tree that may still be run. -/
theorem kept (h : r.Sound) (member : tree ∈ r.trees)
    (known : r.session.machine.locals[id]? = some d) :
    tree.locals[id]?.or r.session.machine.locals[id]? = some d := by
  cases found : tree.locals[id]? with
  | none => exact known
  | some d' =>
    obtain ⟨tree', member', found'⟩ := h.recorded id d known
    have same := h.tree_unique member member' (Tree.mem_ids_of_locals found)
      (Tree.mem_ids_of_locals found')
    rw [same, found'] at found
    exact found.symm

theorem read (h : r.Sound) {nextId : Nat} {trees : List Tree}
    (new : Parser.Fresh r.session.nextId nextId (trees.flatMap Tree.ids)) :
    (r.read nextId trees).Sound where
  fresh := by
    rw [ids, Readings.read, List.flatMap_append]
    exact h.fresh.append new
  recorded id d found := by
    obtain ⟨tree, member, found'⟩ := h.recorded id d found
    exact ⟨tree, List.mem_append_left _ member, found'⟩

theorem run (h : r.Sound) (fuel : Nat) (member : tree ∈ r.trees) :
    Sound { r with session := r.session.runTree fuel tree } where
  fresh := by
    rw [Session.runTree_nextId]
    exact h.fresh
  recorded id d found := by
    rw [Session.getElem?_runTree] at found
    rcases Option.or_eq_some_iff.mp found with new | ⟨-, old⟩
    · exact ⟨tree, member, new⟩
    · exact h.recorded id d old

theorem take (h : r.Sound) (step : Step) : (r.take step).Sound := by
  cases step with
  | program tokens =>
    refine h.read ?_
    simpa [Tree.ids] using parse_ids tokens r.session.nextId
  | expression tokens =>
    obtain ⟨later, fresh⟩ := parseExpression_fresh tokens r.session.nextId
    rw [Readings.take]
    cases parsed : (parseExpression tokens r.session.nextId).result with
    | ok e => exact h.read (by simpa [Tree.ids] using fresh e parsed)
    | error errors => exact h.read ⟨later, fun _ => Nat.zero_le _, nofun⟩
  | run fuel place =>
    rw [Readings.take]
    cases found : r.trees[place]? with
    | none => exact h
    | some tree => exact h.run fuel (List.mem_of_getElem? found)

theorem after (h : r.Sound) (steps : List Step) : (r.after steps).Sound := by
  induction steps generalizing r with
  | nil => exact h
  | cons step rest ih => exact ih (h.take step)

theorem kept_take (h : r.Sound) (step : Step)
    (known : r.session.machine.locals[id]? = some d) :
    (r.take step).session.machine.locals[id]? = some d := by
  cases step with
  | program tokens => exact known
  | expression tokens =>
    rw [Readings.take]
    cases (parseExpression tokens r.session.nextId).result <;> exact known
  | run fuel place =>
    rw [Readings.take]
    cases found : r.trees[place]? with
    | none => exact known
    | some tree =>
      exact (Session.getElem?_runTree ..).trans (h.kept (List.mem_of_getElem? found) known)

theorem kept_after (h : r.Sound) (steps : List Step)
    (known : r.session.machine.locals[id]? = some d) :
    (r.after steps).session.machine.locals[id]? = some d := by
  induction steps generalizing r with
  | nil => exact known
  | cons step rest ih => exact ih (h.take step) (h.kept_take step known)

theorem distinct_words (h : r.Sound) (enough : r.session.nextId ≤ UInt64.size) :
    (r.ids.map UInt64.ofNat).Nodup := by
  refine List.Nodup.map_on (fun id member id' member' same => ?_) h.distinct
  have below : ∀ i ∈ r.ids, (UInt64.ofNat i).toNat = i := fun i found =>
    UInt64.toNat_ofNat_of_lt (Nat.lt_of_lt_of_le (h.fresh.range i found).2 enough)
  rw [← below id member, same, below id' member']

theorem entries (h : r.Sound) {program : List Stmt} (member : .program program ∈ r.trees) :
    ((journal program).entries.map Prod.fst).Nodup :=
  ((List.nodup_flatMap.mp h.distinct).1 _ member).sublist (journal_entries program).1

end Sound

end Readings

/-- Ids are never shared. Whatever is read from the start on, with errors or without, and whatever
is run of it, no id stands twice in the trees that were returned, also if ids are words and there
are enough of them. So static resolution of a program that was read enters every id once at most,
and when its distances join those on record, none of these changes; nor does one later on. A session
is a case of this. -/
theorem ids_are_never_shared (clock : Clock) (limit : Option Nat) (steps : List Readings.Step) :
    let r := (Readings.initial clock limit).after steps
    r.ids.Nodup ∧
      (r.session.nextId ≤ UInt64.size → (r.ids.map UInt64.ofNat).Nodup) ∧
      (∀ program, .program program ∈ r.trees →
        (journal program).resolution = resolve program ∧
          (resolve program).locals = Locals.enterAll ∅ (journal program).entries ∧
          ((journal program).entries.map Prod.fst).Nodup ∧
          ∀ id d : Nat, r.session.machine.locals[id]? = some d →
            (r.session.machine.locals.merge (resolve program).locals)[id]? = some d) ∧
      (∀ (later : List Readings.Step) (id d : Nat), r.session.machine.locals[id]? = some d →
        (r.after later).session.machine.locals[id]? = some d) ∧
      ∀ texts, ∃ readings, (r.after readings).session = r.session.after texts := by
  intro r
  have sound : r.Sound := (Readings.Sound.initial clock limit).after steps
  refine ⟨sound.distinct, sound.distinct_words, fun program member => ?_,
    fun later id d known => sound.kept_after later known, r.exists_after⟩
  refine ⟨journal_resolution program, (journal_entries program).2, sound.entries member,
    fun id d known => ?_⟩
  rw [Locals.getElem?_merge]
  exact sound.kept member known

def blockAgain : List Readings.Step :=
  [.program readingBlock, .run 9 0, .program readingBlock.tail, .program readingBlock]

theorem block_again_keeps_distance :
    let r := (Readings.initial (.fixed 0) none).after blockAgain
    r.ids = [0, 1, 2] ∧ (parse readingBlock.tail 1).errors.length = 1 ∧
      (r.ids.map UInt64.ofNat).Nodup ∧
      (journal (parse readingBlock 2).statements).entries = [(2, 0)] ∧
      r.session.machine.locals[0]? = some 0 ∧
      (r.session.machine.locals.merge (resolve (parse readingBlock 2).statements).locals)[0]? =
        some 0 ∧
      (r.after [.run 9 2]).session.machine.locals[0]? = some 0 := by
  intro r
  obtain ⟨-, words, programs, later, -⟩ := ids_are_never_shared (.fixed 0) none blockAgain
  have known : r.session.machine.locals[0]? = some 0 := rfl
  have member : .program (parse readingBlock 2).statements ∈ r.trees :=
    List.mem_of_getElem? (i := 2) rfl
  obtain ⟨-, -, -, merged⟩ := programs _ member
  exact ⟨rfl, rfl, words (by decide), rfl, known, merged 0 0 known, later [.run 9 2] 0 0 known⟩

end Lox
