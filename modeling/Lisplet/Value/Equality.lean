import Lisplet.Value.Basic

/-! Equality of values. Reals compare as numbers, closures by identity and operations by name, and
the unspecified value equals nothing. -/

namespace Lisplet.Value

mutual

def equal : Value → Value → Bool
  | number a, number b => a == b
  | real a, real b => a == b
  | string a, string b => a == b
  | boolean a, boolean b => a == b
  | symbol a, symbol b => a == b
  | list _ as, list _ bs => equalItems as bs
  | function a .., function b .. => a == b
  | operation a, operation b => a == b
  | _, _ => false

def equalItems : List Value → List Value → Bool
  | [], [] => true
  | a :: as, b :: bs => equal a b && equalItems as bs
  | _, _ => false

end

instance : BEq Value := ⟨equal⟩

def same : Value → Value → Bool
  | list (some a) as, list (some b) bs => a == b || equalItems as bs
  | a, b => a == b

end Lisplet.Value
