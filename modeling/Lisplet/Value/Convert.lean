import Lisplet.Fault

/-! Values as plain numbers, truth values and texts. -/

namespace Lisplet.Value

def expected (wanted : Kind) (got : Value) : Fault :=
  .mismatch (.expected wanted got.kind) none

def toInteger : Value → Except Fault Int64
  | number n => .ok n
  | v => .error (expected .number v)

def toReal : Value → Except Fault Float
  | real x => .ok x
  | number n => .ok (Float.ofInt n.toInt)
  | v => .error (expected .number v)

def toBool : Value → Except Fault Bool
  | boolean b => .ok b
  | v => .error (expected .boolean v)

def toText : Value → Except Fault String
  | string s => .ok s
  | v => .error (expected .string v)

def toItems : Value → Except Fault (List Value)
  | list _ items => .ok items
  | v => .error (expected .list v)

end Lisplet.Value
