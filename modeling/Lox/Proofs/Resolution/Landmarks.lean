import Mathlib.Algebra.Ring.Int.Defs
import Lox.Resolution

namespace Lox

/-- A part of a text with a beginning and an end. A body has the parameters of the function too, and
the declaration of a class has its superclass and its methods. -/
inductive Region where
  | block
  | body (kind : EnclosingFunction)
  | classDecl (isSubclass : Bool)
  | superclass
  | receiver
  | initializer
deriving DecidableEq, Repr

namespace Region

def isScope : Region → Bool
  | classDecl _ | initializer => false
  | _ => true

def isBody : Region → Bool
  | body _ => true
  | _ => false

def isClass : Region → Bool
  | classDecl _ => true
  | _ => false

end Region

inductive Landmark where
  | opens (region : Region)
  | closes (region : Region)
  | declares (name : Token)
  | binds (name : String)
  | reads (id : Nat) (name : Token)
  | assigns (id : Nat) (name : Token)
  | this (id : Nat) (keyword : Token)
  | super (id : Nat) (keyword : Token)
  | returns (keyword : Token) (hasValue : Bool)
  | inherits (name superclass : Token)

namespace Landmark

def declared? : Landmark → Option String
  | declares name => some name.lexeme
  | binds name => some name
  | _ => none

def occurrence? : Landmark → Option (Nat × Token)
  | reads id name | assigns id name | this id name | super id name => some (id, name)
  | _ => none

def change (p : Region → Bool) : Landmark → Int
  | opens region => if p region then 1 else 0
  | closes region => if p region then -1 else 0
  | _ => 0

def within (region : Region) (inner : List Landmark) : List Landmark :=
  opens region :: inner ++ [closes region]

end Landmark

namespace Expr

mutual

/-- An expression declares nothing, so only the order against other parts of the program matters; a
stored value comes before its target. -/
def landmarks : Expr → List Landmark
  | literal _ => []
  | grouping inner => inner.landmarks
  | unary _ operand => operand.landmarks
  | binary left _ right | logical left _ right => left.landmarks ++ right.landmarks
  | var id name => [.reads id name]
  | assign id name value => value.landmarks ++ [.assigns id name]
  | call callee _ arguments => callee.landmarks ++ allLandmarks arguments
  | get object _ => object.landmarks
  | set object _ value => value.landmarks ++ object.landmarks
  | this id keyword => [.this id keyword]
  | super id keyword _ => [.super id keyword]

def allLandmarks : List Expr → List Landmark
  | [] => []
  | e :: rest => e.landmarks ++ allLandmarks rest

end

def optionLandmarks : Option Expr → List Landmark
  | none => []
  | some e => e.landmarks

end Expr

namespace Stmt

def inheritance (name : Token) : Option Expr → List Landmark
  | some (.var _ superclass) => [.inherits name superclass]
  | _ => []

/-- The scope of `this` around the methods, and around it that of `super` if there is one. -/
def receiverScope (superclass : Option Expr) (methods : List Landmark) : List Landmark :=
  match superclass with
  | none => Landmark.within .receiver (.binds "this" :: methods)
  | some _ =>
    Landmark.within .superclass
      (.binds "super" :: Landmark.within .receiver (.binds "this" :: methods))

mutual

def functionLandmarks (kind : EnclosingFunction) : FunctionDecl → List Landmark
  | ⟨_, params, body⟩ =>
    Landmark.within (.body kind) (params.map Landmark.declares ++ allLandmarks body)

def methodLandmarks : List FunctionDecl → List Landmark
  | [] => []
  | method :: rest =>
    functionLandmarks (.ofMethod method.name) method ++ methodLandmarks rest

def landmarks : Stmt → List Landmark
  | expression value | print value => value.landmarks
  | var name initializer =>
    .declares name :: Landmark.within .initializer (Expr.optionLandmarks initializer)
  | block statements => Landmark.within .block (allLandmarks statements)
  | branch condition thenBranch none => condition.landmarks ++ thenBranch.landmarks
  | branch condition thenBranch (some elseBranch) =>
    condition.landmarks ++ (thenBranch.landmarks ++ elseBranch.landmarks)
  | loop condition body => condition.landmarks ++ body.landmarks
  | function declaration =>
    .declares declaration.name :: functionLandmarks .function declaration
  | ret keyword value => .returns keyword value.isSome :: Expr.optionLandmarks value
  | classDecl name superclass methods =>
    .declares name :: Landmark.within (.classDecl superclass.isSome)
      (inheritance name superclass ++
        (Expr.optionLandmarks superclass ++ receiverScope superclass (methodLandmarks methods)))

def allLandmarks : List Stmt → List Landmark
  | [] => []
  | statement :: rest => statement.landmarks ++ allLandmarks rest

end

end Stmt

abbrev Landmarks := List Landmark

namespace Landmarks

/-- How many regions of a kind a stretch opens, less those that it closes. -/
def gain (p : Region → Bool) (stretch : Landmarks) : Int := (stretch.map (Landmark.change p)).sum

def depth (stretch : Landmarks) : Int := stretch.gain fun _ => true

def scopes (stretch : Landmarks) : Int := stretch.gain Region.isScope

/-- No region from before the stretch ends in it. -/
def Stays (stretch : Landmarks) : Prop := ∀ start, start <+: stretch → 0 ≤ depth start

/-- Counting outwards from the end of the text, the scope number `d` has declared the name. The
global scope does not count. -/
def DeclaredAt (text : Landmarks) (name : String) (d : Nat) : Prop :=
  ∃ (earlier : Landmarks) (l : Landmark) (later : Landmarks), text = earlier ++ l :: later ∧
    l.declared? = some name ∧ Stays later ∧ scopes later = d ∧ 0 < scopes earlier

/-- The first such scope. -/
def LexicalDistance (text : Landmarks) (name : String) (d : Nat) : Prop :=
  text.DeclaredAt name d ∧ ∀ closer < d, ¬ text.DeclaredAt name closer

/-- The end of the text lies in a region of a kind. -/
def Inside (p : Region → Bool) (text : Landmarks) : Prop :=
  ∃ outer region inner, text = outer ++ Landmark.opens region :: inner ∧ Stays inner ∧
    p region = true

def Innermost (p : Region → Bool) (text : Landmarks) (region : Region) : Prop :=
  ∃ outer inner, text = outer ++ Landmark.opens region :: inner ∧ Stays inner ∧ p region = true ∧
    ¬ Inside p inner

/-- The end of the text lies in the initializer of a local variable that is the first of its name
in its scope. -/
def Initializes (text : Landmarks) (name : String) : Prop :=
  ∃ (outer : Landmarks) (declared : Token) (inner : Landmarks),
    text = outer ++ Landmark.declares declared :: Landmark.opens .initializer :: inner ∧
      Stays inner ∧ declared.lexeme = name ∧ 0 < scopes outer ∧ ¬ outer.DeclaredAt name 0

end Landmarks

/-- The static rules, as the ways to break one behind a text. -/
inductive Violates (text : Landmarks) : Landmark → ResolveError → Prop where
  | alreadyDeclared {name : Token} (earlier : text.DeclaredAt name.lexeme 0) :
    Violates text (.declares name) ⟨.alreadyDeclared, name⟩
  | ownInitializer {id : Nat} {name : Token} (own : text.Initializes name.lexeme) :
    Violates text (.reads id name) ⟨.ownInitializer, name⟩
  | topLevelReturn {keyword : Token} {hasValue : Bool} (outside : ¬ text.Inside Region.isBody) :
    Violates text (.returns keyword hasValue) ⟨.topLevelReturn, keyword⟩
  | initializerReturn {keyword : Token}
    (inside : text.Innermost Region.isBody (.body .initializer)) :
    Violates text (.returns keyword true) ⟨.initializerReturn, keyword⟩
  | inheritsItself {name superclass : Token} (same : superclass.lexeme = name.lexeme) :
    Violates text (.inherits name superclass) ⟨.inheritsItself, superclass⟩
  | thisOutsideClass {id : Nat} {keyword : Token} (outside : ¬ text.Inside Region.isClass) :
    Violates text (.this id keyword) ⟨.thisOutsideClass, keyword⟩
  | superOutsideClass {id : Nat} {keyword : Token} (outside : ¬ text.Inside Region.isClass) :
    Violates text (.super id keyword) ⟨.superOutsideClass, keyword⟩
  | superWithoutSuperclass {id : Nat} {keyword : Token}
    (inside : text.Innermost Region.isClass (.classDecl false)) :
    Violates text (.super id keyword) ⟨.superWithoutSuperclass, keyword⟩

/-- A receiver or a superclass where the rules allow none. -/
def IsMisplaced (text : Landmarks) : Landmark → Prop
  | .this id keyword => ∃ error, Violates text (.this id keyword) error
  | .super id keyword => ∃ error, Violates text (.super id keyword) error
  | _ => False

def ViolatesAt (text : Landmarks) (place : Nat) (error : ResolveError) : Prop :=
  ∃ l, text[place]? = some l ∧ Violates (text.take place) l error

end Lox
