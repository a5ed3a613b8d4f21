import Lisplet.Integer
import Lisplet.Value.Kind

/-! Values. They are both what source text is read into and what evaluation yields. -/

namespace Lisplet

/-- A scope is a path of frames of the store, from the innermost outwards. -/
structure Scope where
  frame : Nat
  outer : List Nat
deriving DecidableEq

def Scope.path (scope : Scope) : List Nat :=
  scope.frame :: scope.outer

def Scope.parent? (scope : Scope) : Option Scope :=
  match scope.outer with
  | [] => none
  | frame :: outer => some ⟨frame, outer⟩

/-- A list made by a call carries the mark of that call, and a closure the mark of its creation:
two of them are one object if their marks agree. A list read from source text has no mark. -/
inductive Value where
  | number (n : Int64)
  | real (x : Float)
  | string (s : String)
  | boolean (b : Bool)
  | symbol (name : String)
  | list (mark : Option Nat) (items : List Value)
  | function (mark : Nat) (params : List String) (body : List Value) (scope : Scope)
  | operation (operation : Operation)
  | unspecified

namespace Value

def kind : Value → Kind
  | number _ => .number
  | real _ => .real
  | string _ => .string
  | boolean _ => .boolean
  | symbol _ => .symbol
  | list .. => .list
  | function .. => .function
  | operation _ => .operation
  | unspecified => .unspecified

abbrev ofList (items : List Value) : Value :=
  list none items

abbrev nil : Value :=
  ofList []

def isNil : Value → Bool
  | list _ items => items.isEmpty
  | _ => false

def symbol? : Value → Option String
  | symbol name => some name
  | _ => none

def items? : Value → Option (List Value)
  | list _ items => some items
  | _ => none

def quoted (form : Value) : Value :=
  ofList [symbol CoreForm.quote.name, form]

def ofCount (n : Nat) : Value :=
  number (Integer.ofCount n)

def hasIndex {α : Type} (items : List α) (index : Int) : Bool :=
  0 ≤ index && index < items.length

end Value

end Lisplet
