import Lisplet.Text.Layout
import Lisplet.Text.Quoted
import Lisplet.Value.Basic

/-! Frames of bindings. Scopes share frames, so a store holds them all and a scope names the ones
it sees. -/

namespace Lisplet

abbrev Bindings := List (String × Value)

namespace Bindings

def get? (bindings : Bindings) (name : String) : Option Value :=
  bindings.lookup name

def contains (bindings : Bindings) (name : String) : Bool :=
  (bindings.get? name).isSome

def insert (name : String) (v : Value) : Bindings → Bindings
  | [] => [(name, v)]
  | (other, w) :: rest =>
    if name = other then (name, v) :: rest
    else if name < other then (name, v) :: (other, w) :: rest
    else (other, w) :: insert name v rest

def override (bindings later : Bindings) : Bindings :=
  later.foldl (fun acc entry => acc.insert entry.1 entry.2) bindings

def ofList (entries : List (String × Value)) : Bindings :=
  override [] entries

def names (bindings : Bindings) : List String :=
  bindings.map Prod.fst

end Bindings

structure Store where
  frames : Array Bindings
  marks : Nat

namespace Store

def empty : Store := ⟨#[], 0⟩

def frame (store : Store) (index : Nat) : Bindings :=
  store.frames[index]?.getD []

def extend (store : Store) (outer : Option Scope) (bindings : Bindings) : Scope × Store :=
  (⟨store.frames.size, (outer.map Scope.path).getD []⟩,
    { store with frames := store.frames.push bindings })

def get? (store : Store) (scope : Scope) (name : String) : Option Value :=
  scope.path.findSome? fun index => (store.frame index).get? name

def holder? (store : Store) (scope : Scope) (name : String) : Option Nat :=
  scope.path.find? fun index => (store.frame index).contains name

def bind (store : Store) (index : Nat) (name : String) (v : Value) : Store :=
  { store with frames := store.frames.modify index (Bindings.insert name v) }

def define (store : Store) (scope : Scope) (name : String) (v : Value) : Store :=
  store.bind scope.frame name v

def assign? (store : Store) (scope : Scope) (name : String) (v : Value) : Option Store :=
  (store.holder? scope name).map fun index => store.bind index name v

def isBoundHere (store : Store) (scope : Scope) (name : String) : Bool :=
  (store.frame scope.frame).contains name

def visibleFrom (store : Store) : List Nat → Bindings
  | [] => []
  | index :: outer => (store.visibleFrom outer).override (store.frame index)

def visible (store : Store) (scope : Scope) : Bindings :=
  store.visibleFrom scope.path

def inspectPath (store : Store) : List Nat → List Char
  | [] => "None".toList
  | index :: outer =>
    "Some(".toList ++ inspectFrame (store.frame index) (inspectPath store outer) ++ [')']
where
  inspectFrame (bindings : Bindings) (parent : List Char) : List Char :=
    "Scope \x7b bindings: [".toList ++
      Text.joined [',', ' '] (bindings.names.map Text.inspected) ++ "], parent: ".toList ++
      parent ++ " \x7d".toList

def inspect (store : Store) (scope : Scope) : String :=
  String.ofList
    (inspectPath.inspectFrame (store.frame scope.frame) (store.inspectPath scope.outer))

end Store

end Lisplet
