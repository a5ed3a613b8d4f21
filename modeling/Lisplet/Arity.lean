import Lisplet.Fault

/-! How many arguments an operation takes. -/

namespace Lisplet

inductive Arity where
  | exact (count : Nat)
  | atLeast (least : Nat)
  | range (least greatest : Nat)
  | any
deriving DecidableEq

namespace Arity

def broken? : Arity → Nat → Option Nat
  | exact count, got => if got = count then none else some count
  | atLeast least, got => if got < least then some least else none
  | range least greatest, got =>
    if got < least then some least else if greatest < got then some greatest else none
  | any, _ => none

def check (arity : Arity) (got : Nat) : Except Fault Unit :=
  match arity.broken? got with
  | some bound => .error (.arity bound got none)
  | none => .ok ()

def inspect : Arity → String
  | exact count => "Exact(" ++ Decimal.countText count ++ ")"
  | atLeast least => "AtLeast(" ++ Decimal.countText least ++ ")"
  | range least greatest =>
    "Range(" ++ Decimal.countText least ++ ", " ++ Decimal.countText greatest ++ ")"
  | any => "Any"

end Arity

end Lisplet
