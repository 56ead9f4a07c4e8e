import Lox.Value

namespace Lox

structure Store where
  scopes : Array (Table Value)
  objects : Array (Table Value)
  nextIdentity : Nat

namespace Store

def initial : Store := ⟨#[.empty], #[], 0⟩

def newScope (store : Store) : Nat × Store :=
  (store.scopes.size, { store with scopes := store.scopes.push .empty })

def newObject (store : Store) : Nat × Store :=
  (store.objects.size, { store with objects := store.objects.push .empty })

def newIdentity (store : Store) : Nat × Store :=
  (store.nextIdentity, { store with nextIdentity := store.nextIdentity + 1 })

def define (store : Store) (scope : Nat) (name : String) (value : Value) : Store :=
  { store with scopes := store.scopes.modify scope fun table => table.insert name value }

def binding? (store : Store) (scope : Nat) (name : String) : Option Value :=
  store.scopes[scope]?.bind fun table => table.get? name

def binds (store : Store) (scope : Nat) (name : String) : Bool := (store.binding? scope name).isSome

def bindingScope? (store : Store) (env : Env) (name : String) : Option Nat :=
  env.find? fun scope => store.binds scope name

def get? (store : Store) (env : Env) (name : String) : Option Value :=
  (store.bindingScope? env name).bind fun scope => store.binding? scope name

def assign? (store : Store) (env : Env) (name : String) (value : Value) : Option Store :=
  (store.bindingScope? env name).map fun scope => store.define scope name value

def getAt? (store : Store) (env : Env) (distance : Nat) (name : String) : Option Value :=
  env[distance]?.bind fun scope => store.binding? scope name

/-- Assigning at a distance defines the name in that scope, bound before or not. -/
def assignAt? (store : Store) (env : Env) (distance : Nat) (name : String) (value : Value) :
    Option Store :=
  env[distance]?.map fun scope => store.define scope name value

def field? (store : Store) (object : Nat) (name : String) : Option Value :=
  store.objects[object]?.bind fun fields => fields.get? name

def setField (store : Store) (object : Nat) (name : String) (value : Value) : Store :=
  { store with objects := store.objects.modify object fun fields => fields.insert name value }

end Store

end Lox
