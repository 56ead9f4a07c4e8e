import Lox.Proofs.Resolution.Places

namespace Lox

/-- A step of static resolution along a stretch of the text, in regions of some kind. -/
def Walks (C : List Region → Prop) (stretch : Landmarks) (f : Resolution → Resolution) : Prop :=
  ∀ text nest r, Stands text nest none r → C (nest.map Prod.fst) →
    ∃ nest', Stands (text ++ stretch) nest' none (f r) ∧ nest'.map Prod.fst = nest.map Prod.fst

def Settled (enclosing : EnclosingClass) (kind : EnclosingFunction) (regions : List Region) :
    Prop :=
  Suits enclosing kind regions ∧ IsReady regions

namespace Suits

variable {enclosing : EnclosingClass} {kind : EnclosingFunction} {regions : List Region}

theorem plain (h : Suits enclosing kind regions) {region : Region}
    (noClass : region.isClass = false) (noBody : region.isBody = false)
    (noInitializer : region ≠ .initializer) :
    Suits enclosing kind (region :: regions) where
  enclosing := by simpa [classAmong, noClass] using h.enclosing
  kind := by simpa [functionAmong, noBody] using h.kind
  closed := by simpa [noInitializer.symm] using h.closed
  kinds := by
    have other : .body .none ≠ region := by
      rintro rfl
      cases noBody
    simpa [other] using h.kinds

theorem body (h : Suits enclosing kind regions) {inner : EnclosingFunction}
    (proper : inner ≠ .none) : Suits enclosing inner (.body inner :: regions) where
  enclosing := by simpa [classAmong, Region.isClass] using h.enclosing
  kind := rfl
  closed := by simpa using h.closed
  kinds := by simpa [proper.symm] using h.kinds

theorem classDecl (h : Suits enclosing kind regions) (superclass : Option Expr) :
    Suits (Stmt.enclosedBy superclass) kind (.classDecl superclass.isSome :: regions) where
  enclosing := by cases superclass <;> rfl
  kind := by simpa [functionAmong, Region.isBody] using h.kind
  closed := by simpa using h.closed
  kinds := by simpa using h.kinds

end Suits

namespace Walks

variable {C C' : List Region → Prop} {first second stretch : Landmarks}
  {f g : Resolution → Resolution}

theorem nothing : Walks C [] fun r => r :=
  fun text nest r h _ => ⟨nest, by simpa using h, rfl⟩

theorem seq (one : Walks C first f) (other : Walks C second g) :
    Walks C (first ++ second) fun r => g (f r) := by
  intro text nest r h suits
  obtain ⟨nest', h', same⟩ := one text nest r h suits
  obtain ⟨nest'', h'', same'⟩ := other _ nest' _ h' (same ▸ suits)
  exact ⟨nest'', by simpa using h'', same'.trans same⟩

theorem scope {region : Region} (inner : Walks C' stretch f) (isScope : region.isScope = true)
    (closed : ∀ regions, C regions → .initializer ∉ regions)
    (suits : ∀ regions, C regions → C' (region :: regions)) :
    Walks C (Landmark.within region stretch) fun r => (f r.enter).leave := by
  intro text nest r h around
  obtain ⟨nest', h', same⟩ :=
    inner _ _ _ (h.opensScope (closed _ around) isScope) (suits _ around)
  obtain ⟨⟨_, names⟩, nest', rfl, rfl, same'⟩ := List.map_eq_cons_iff.mp same
  refine ⟨nest', ?_, same'⟩
  simpa [Landmark.within] using h'.closesScope (by rw [same']; exact closed _ around) isScope

theorem classDecl {isSubclass : Bool} (inner : Walks C' stretch f)
    (closed : ∀ regions, C regions → .initializer ∉ regions)
    (suits : ∀ regions, C regions → C' (.classDecl isSubclass :: regions)) :
    Walks C (Landmark.within (.classDecl isSubclass) stretch) f := by
  intro text nest r h around
  have enters : Stands (text ++ [.opens (.classDecl isSubclass)]) _ none r :=
    h.opens (closed _ around) (by simp) h.tracks rfl rfl
  obtain ⟨nest', h', same⟩ := inner _ _ _ enters (suits _ around)
  obtain ⟨⟨_, names⟩, nest', rfl, rfl, same'⟩ := List.map_eq_cons_iff.mp same
  refine ⟨nest', ?_, same'⟩
  simpa [Landmark.within] using
    h'.closes (by rw [same']; exact closed _ around) h'.tracks rfl rfl

end Walks

namespace Expr

mutual

theorem walks {enclosing : EnclosingClass} {pending : Option String} :
    (e : Expr) → ∀ {text : Landmarks} {nest : List (Region × List String)} {r : Resolution},
    Stands text nest pending r → classAmong (nest.map Prod.fst) = enclosing →
    Stands (text ++ e.landmarks) nest pending (e.resolve enclosing r)
  | literal _, _, _, _, h, _ => by simpa [landmarks, resolve] using h
  | grouping inner, _, _, _, h, known => walks inner h known
  | unary _ operand, _, _, _, h, known => walks operand h known
  | binary left _ right, _, _, _, h, known | logical left _ right, _, _, _, h, known => by
    rw [landmarks, ← List.append_assoc]
    exact walks right (walks left h known) known
  | var id name, _, _, _, h, _ => h.reads id name
  | assign id name value, _, _, _, h, known => by
    rw [landmarks, ← List.append_assoc]
    exact (walks value h known).assigns id name
  | call callee _ arguments, _, _, _, h, known => by
    rw [landmarks, ← List.append_assoc]
    exact allWalks arguments (walks callee h known) known
  | get object _, _, _, _, h, known => walks object h known
  | set object _ value, _, _, _, h, known => by
    rw [landmarks, ← List.append_assoc]
    exact walks object (walks value h known) known
  | this id keyword, _, _, _, h, known => h.this known id keyword
  | super id keyword _, _, _, _, h, known => h.super known id keyword

theorem allWalks {enclosing : EnclosingClass} {pending : Option String} :
    (es : List Expr) → ∀ {text : Landmarks} {nest : List (Region × List String)} {r : Resolution},
    Stands text nest pending r → classAmong (nest.map Prod.fst) = enclosing →
    Stands (text ++ allLandmarks es) nest pending (resolveList enclosing es r)
  | [], _, _, _, h, _ => by simpa [allLandmarks, resolveList] using h
  | e :: rest, _, _, _, h, known => by
    rw [allLandmarks, ← List.append_assoc]
    exact allWalks rest (walks e h known) known

end

theorem optionWalks {enclosing : EnclosingClass} {pending : Option String} {text : Landmarks}
    {nest : List (Region × List String)} {r : Resolution} (e : Option Expr)
    (h : Stands text nest pending r) (known : classAmong (nest.map Prod.fst) = enclosing) :
    Stands (text ++ optionLandmarks e) nest pending (resolveOption enclosing e r) := by
  cases e with
  | none => simpa [optionLandmarks, resolveOption] using h
  | some e => exact e.walks h known

end Expr

namespace Walks

variable {enclosing : EnclosingClass} {kind : EnclosingFunction} {stretch : Landmarks}
  {f : Resolution → Resolution}

theorem weaken {C C' : List Region → Prop} (h : Walks C stretch f)
    (implies : ∀ regions, C' regions → C regions) : Walks C' stretch f :=
  fun text nest r place around => h text nest r place (implies _ around)

theorem expr (e : Expr) :
    Walks (Suits enclosing kind) e.landmarks fun r => e.resolve enclosing r :=
  fun _ nest _ h suits => ⟨nest, e.walks h suits.enclosing, rfl⟩

theorem option (e : Option Expr) :
    Walks (Suits enclosing kind) (Expr.optionLandmarks e) fun r =>
      Expr.resolveOption enclosing e r :=
  fun _ nest _ h suits => ⟨nest, Expr.optionWalks e h suits.enclosing, rfl⟩

theorem returns (keyword : Token) (hasValue : Bool) :
    Walks (Suits enclosing kind) [.returns keyword hasValue] fun r =>
      (r.reportIf (kind == .none) .topLevelReturn keyword).reportIf
        (hasValue && kind == .initializer) .initializerReturn keyword :=
  fun _ nest _ h suits => ⟨nest, h.returns suits.kind suits.kinds keyword hasValue, rfl⟩

theorem declares (name : Token) :
    Walks (Settled enclosing kind) [.declares name] fun r => r.declareAndDefine name :=
  fun _ _ _ h settled =>
    ⟨_, h.declares settled.2 settled.1.closed name, regions_declareIn _ _⟩

theorem binds (name : String) :
    Walks (Settled enclosing kind) [.binds name] fun r => r.define name :=
  fun _ _ _ h settled => ⟨_, h.binds settled.2 settled.1.closed name, regions_declareIn _ _⟩

theorem params : (params : List Token) →
    Walks (Settled enclosing kind) (params.map Landmark.declares) fun r =>
      params.foldl Resolution.declareAndDefine r
  | [] => nothing
  | name :: rest => (declares name).seq (params rest)

theorem var (name : Token) (initializer : Option Expr) :
    Walks (Settled enclosing kind) (Stmt.var name initializer).landmarks fun r =>
      (Stmt.var name initializer).resolve enclosing kind r := by
  rintro text nest r h ⟨suits, ready⟩
  obtain ⟨pending, only, begins⟩ := h.opensInitializer ready suits.closed name
  have outside : classAmong (((.initializer, []) :: declareIn name.lexeme nest).map Prod.fst) =
      enclosing := by
    rw [List.map_cons, regions_declareIn]
    exact suits.enclosing
  have ends := (Expr.optionWalks initializer begins outside).closesInitializer ready suits.closed
    only
  refine ⟨declareIn name.lexeme nest, ?_, regions_declareIn _ _⟩
  simpa [Stmt.landmarks, Landmark.within, Stmt.resolve] using ends

theorem receiverScope (superclass : Option Expr) {methods : Landmarks}
    (inner : Walks (Settled enclosing kind) methods f) :
    Walks (Suits enclosing kind) (Stmt.receiverScope superclass methods) fun r =>
      Stmt.leaveClass superclass (f (match superclass with
        | none => r.enter.define "this"
        | some _ => (r.enter.define "super").enter.define "this")) := by
  have receiver : Walks (Suits enclosing kind)
      (Landmark.within .receiver (.binds "this" :: methods))
      fun r => (f (r.enter.define "this")).leave :=
    ((binds "this").seq inner).scope rfl (fun _ suits => suits.closed) fun _ suits =>
      ⟨suits.plain rfl rfl nofun, by rintro region found; cases found; rfl⟩
  cases superclass with
  | none => exact receiver
  | some e =>
    have bound : Walks (Settled enclosing kind)
        (.binds "super" :: Landmark.within .receiver (.binds "this" :: methods)) _ :=
      (binds "super").seq (receiver.weaken fun _ => And.left)
    exact bound.scope rfl (fun _ suits => suits.closed) fun _ suits =>
      ⟨suits.plain rfl rfl nofun, by rintro region found; cases found; rfl⟩

theorem superclass (name : Token) (superclass : Option Expr) :
    Walks (Suits (Stmt.enclosedBy superclass) kind)
      (Stmt.inheritance name superclass ++ Expr.optionLandmarks superclass) fun r =>
        match superclass with
        | none => r
        | some e => e.resolve .subclass (r.reportIf (Stmt.inheritsItself name e) .inheritsItself
            (Stmt.superclassName name e)) := by
  cases superclass with
  | none => exact nothing
  | some e =>
    have reported : Walks (Suits .subclass kind) (Stmt.inheritance name (some e)) fun r =>
        r.reportIf (Stmt.inheritsItself name e) .inheritsItself (Stmt.superclassName name e) :=
      fun _ nest _ h _ => ⟨nest, h.inherits name e, rfl⟩
    exact reported.seq (expr e)

theorem classStatement (name : Token) (superclass : Option Expr) {methods : Landmarks}
    (inner : Walks (Suits (Stmt.enclosedBy superclass) kind) methods f) :
    Walks (Settled enclosing kind)
      (.declares name :: Landmark.within (.classDecl superclass.isSome)
        (Stmt.inheritance name superclass ++
          (Expr.optionLandmarks superclass ++ Stmt.receiverScope superclass methods)))
      fun r => Stmt.leaveClass superclass
        (f (Stmt.enterClass name superclass (r.declareAndDefine name))) := by
  have inside : Walks (Suits (Stmt.enclosedBy superclass) kind) _ _ :=
    (Walks.superclass name superclass).seq
      (receiverScope superclass (inner.weaken fun _ => And.left))
  have around : Walks (Suits enclosing kind) _ _ :=
    inside.classDecl (fun _ suits => suits.closed) fun _ suits => suits.classDecl superclass
  have whole : Walks (Settled enclosing kind) _ _ :=
    (declares name).seq (around.weaken fun _ => And.left)
  rw [List.append_assoc] at whole
  cases superclass <;> exact whole

end Walks

namespace Stmt

theorem ofMethod_ne_none (name : Token) : EnclosingFunction.ofMethod name ≠ .none := by
  unfold EnclosingFunction.ofMethod
  split <;> nofun

mutual

theorem functionWalks {enclosing : EnclosingClass} {kind : EnclosingFunction}
    (proper : kind ≠ .none) : (d : FunctionDecl) → ∀ {outer : EnclosingFunction},
    Walks (Suits enclosing outer) (functionLandmarks kind d) fun r =>
      resolveFunction enclosing kind d r
  | ⟨_, params, body⟩, _ => by
    refine ((Walks.params params).seq (allWalks body)).scope rfl (fun _ suits => suits.closed) ?_
    intro regions suits
    exact ⟨suits.body proper, by rintro region found; cases found; rfl⟩

theorem methodWalks {enclosing : EnclosingClass} :
    (ds : List FunctionDecl) → ∀ {outer : EnclosingFunction},
    Walks (Suits enclosing outer) (methodLandmarks ds) fun r => resolveMethods enclosing ds r
  | [], _ => Walks.nothing
  | d :: rest, _ => (functionWalks (ofMethod_ne_none d.name) d).seq (methodWalks rest)

theorem walks {enclosing : EnclosingClass} : (s : Stmt) → ∀ {kind : EnclosingFunction},
    Walks (Settled enclosing kind) s.landmarks fun r => s.resolve enclosing kind r
  | .expression value, _ | .print value, _ => (Walks.expr value).weaken fun _ => And.left
  | .var name initializer, _ => Walks.var name initializer
  | .block statements, _ =>
    (allWalks statements).scope rfl (fun _ settled => settled.1.closed) fun _ settled =>
      ⟨settled.1.plain rfl rfl nofun, by rintro region found; cases found; rfl⟩
  | .branch condition thenBranch none, _ =>
    ((Walks.expr condition).weaken fun _ => And.left).seq (walks thenBranch)
  | .branch condition thenBranch (some elseBranch), _ =>
    ((Walks.expr condition).weaken fun _ => And.left).seq
      ((walks thenBranch).seq (walks elseBranch))
  | .loop condition body, _ =>
    ((Walks.expr condition).weaken fun _ => And.left).seq (walks body)
  | .function declaration, _ =>
    (Walks.declares declaration.name).seq
      ((functionWalks (by simp) declaration).weaken fun _ => And.left)
  | .ret keyword value, _ =>
    ((Walks.returns keyword value.isSome).seq (Walks.option value)).weaken fun _ => And.left
  | .classDecl name superclass methods, _ =>
    Walks.classStatement name superclass (methodWalks methods)

theorem allWalks {enclosing : EnclosingClass} : (ss : List Stmt) → ∀ {kind : EnclosingFunction},
    Walks (Settled enclosing kind) (allLandmarks ss) fun r => resolveList enclosing kind ss r
  | [], _ => Walks.nothing
  | s :: rest, _ => (walks s).seq (allWalks rest)

end

end Stmt

/-- Static resolution arrives at the end of every program. -/
theorem stands_resolve (program : List Stmt) :
    ∃ nest, Stands (Stmt.allLandmarks program) nest none (resolve program) := by
  obtain ⟨nest, h, -⟩ := Stmt.allWalks program [] [] .empty .start
    ⟨⟨rfl, rfl, List.not_mem_nil, List.not_mem_nil⟩, nofun⟩
  exact ⟨nest, h⟩

end Lox
