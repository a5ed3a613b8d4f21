import Lisplet.Value.Convert

/-! Arithmetic on integers and reals. Integer results are exact or overflow; once a real takes part
the calculation goes on in reals, which have to stay finite. -/

namespace Lisplet

inductive Num where
  | int (n : Int64)
  | real (x : Float)

namespace Num

def ofValue : Value → Except Fault Num
  | .number n => .ok (int n)
  | .real x => .ok (real x)
  | v => .error (v.expected .number)

def ofValues : List Value → Except Fault (List Num)
  | [] => .ok []
  | v :: vs => (ofValue v).bind fun x => (ofValues vs).map (x :: ·)

def toValue : Num → Value
  | int n => .number n
  | real x => .real x

def toReal : Num → Float
  | int n => Float.ofInt n.toInt
  | real x => x

def exactly (what : Calculation) (n : Int) : Except Fault Num :=
  match Integer.fit? n with
  | some n => .ok (int n)
  | none => .error (.failure (.integerOverflow what) none)

def finitely (what : Calculation) (x : Float) : Except Fault Num :=
  if x.isFinite then .ok (real x) else .error (.failure (.realOverflow what) none)

def combine (what : Calculation) (onInts : Int → Int → Int) (onReals : Float → Float → Float) :
    Num → Num → Except Fault Num
  | int a, int b => exactly what (onInts a.toInt b.toInt)
  | a, b => finitely what (onReals a.toReal b.toReal)

def add : Num → Num → Except Fault Num :=
  combine .addition (· + ·) (· + ·)

def subtract : Num → Num → Except Fault Num :=
  combine .subtraction (· - ·) (· - ·)

def multiply : Num → Num → Except Fault Num :=
  combine .multiplication (· * ·) (· * ·)

def negate : Num → Except Fault Num
  | int n => exactly .negation (-n.toInt)
  | real x => .ok (real (-x))

def divideInts (a b : Int64) : Except Fault Num :=
  (exactly .division (a.toInt.tdiv b.toInt)).map fun quotient =>
    if a.toInt.tmod b.toInt = 0 then quotient else real ((int a).toReal / (int b).toReal)

def divide (a b : Num) : Except Fault Num :=
  if b.toReal == 0.0 then .error (.failure .divisionByZero none)
  else match a, b with
    | int a, int b => divideInts a b
    | a, b => finitely .division (a.toReal / b.toReal)

def chain (step : Num → Num → Except Fault Num) : Num → List Num → Except Fault Num
  | acc, [] => .ok acc
  | acc, x :: xs => (step acc x).bind fun acc => chain step acc xs

def compare? : Num → Num → Option Ordering
  | int a, int b => some (compare a.toInt b.toInt)
  | a, b =>
    let x := a.toReal
    let y := b.toReal
    if x < y then some .lt else if x == y then some .eq else if y < x then some .gt else none

def ordered (wanted : Ordering → Bool) : Num → List Num → Bool
  | _, [] => true
  | a, b :: rest => (a.compare? b).any wanted && ordered wanted b rest

end Num

namespace Arithmetic

def sum (args : List Value) : Except Fault Num :=
  (Num.ofValues args).bind (Num.chain Num.add (.int 0))

def difference (first : Value) (rest : List Value) : Except Fault Num :=
  (Num.ofValue first).bind fun first =>
    (Num.ofValues rest).bind fun
      | [] => first.negate
      | rest => Num.chain Num.subtract first rest

def product (first : Value) (rest : List Value) : Except Fault Num :=
  -- unlike elsewhere, the first operand is read last
  (Num.ofValues rest).bind fun rest =>
    (Num.ofValue first).bind fun first => Num.chain Num.multiply first rest

def quotient (first : Value) (rest : List Value) : Except Fault Num :=
  (Num.ofValue first).bind fun first => (Num.ofValues rest).bind (Num.chain Num.divide first)

def remainder (a b : Int64) : Except Fault Num :=
  if b.toInt = 0 then .error (.failure .divisionByZero none)
  else (Num.exactly .remainder (a.toInt.tdiv b.toInt)).bind fun _ =>
    Num.exactly .remainder (a.toInt.tmod b.toInt)

def comparison (wanted : Ordering → Bool) (first : Value) (rest : List Value) :
    Except Fault Bool :=
  (Num.ofValue first).bind fun first => (Num.ofValues rest).map (Num.ordered wanted first)

end Arithmetic

end Lisplet
