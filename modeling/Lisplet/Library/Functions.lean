import Lisplet.Library.Arithmetic
import Lisplet.Run
import Lisplet.Signature
import Lisplet.Value.Equality

/-! The functions of the library, on evaluated arguments. -/

namespace Lisplet

def Signature.run {α : Type} (signature : Signature) (f : signature.Handler (Run α))
    (args : List Value) : Run α :=
  match signature.call f args with
  | .ok run => run
  | .error fault => Run.fail fault

namespace Library

def number (result : Except Fault Num) : Run Value :=
  Run.ofExcept (result.map Num.toValue)

def truth (result : Except Fault Bool) : Run Value :=
  Run.ofExcept (result.map .boolean)

def first : List Value → Run Value
  | [] => Run.fail (.failure (.emptyList .first) none)
  | v :: _ => pure v

def rest : List Value → Run Value
  | [] => Run.fail (.failure (.emptyList .rest) none)
  | _ :: vs => Run.newList vs

def cons (v : Value) : Value → Run Value
  | .list _ items => Run.newList (v :: items)
  | _ => Run.fail (.mismatch .tailNotList none)

def length : Value → Run Value
  | .list _ items => pure (.ofCount items.length)
  | .string s => pure (.ofCount s.length)
  | v => Run.fail (.mismatch (.noLength v.kind) none)

def shownLine (args : List Value) : String :=
  Text.joinWith " " (args.map Value.shown)

def echo (args : List Value) : Run Value :=
  Run.printLine (shownLine args) >>= fun _ => pure .unspecified

def fail (args : List Value) : Run Value :=
  Run.fail (.failure (.raised (if args.isEmpty then "Error" else shownLine args)) none)

end Library

namespace LibraryFunction

open Library

def values : Signature := ⟨[], some .value⟩

def someValues : Signature := ⟨[.single .value], some .value⟩

def oneValue : Signature := ⟨[.single .value], none⟩

def twoValues : Signature := ⟨[.single .value, .single .value], none⟩

def oneList : Signature := ⟨[.list .value], none⟩

def comparing (wanted : Ordering → Bool) : List Value → Run Value :=
  someValues.run fun x xs => truth (Arithmetic.comparison wanted x xs)

def call : LibraryFunction → List Value → Run Value
  | add => values.run fun xs => number (Arithmetic.sum xs)
  | subtract => someValues.run fun x xs => number (Arithmetic.difference x xs)
  | multiply => someValues.run fun x xs => number (Arithmetic.product x xs)
  | divide => someValues.run fun x xs => number (Arithmetic.quotient x xs)
  | remainder => Signature.run ⟨[.single .number, .single .number], none⟩ fun a b =>
      number (Arithmetic.remainder a b)
  | numEqual => comparing (· == .eq)
  | less => comparing (· == .lt)
  | greater => comparing (· == .gt)
  | atMost => comparing (· != .gt)
  | atLeast => comparing (· != .lt)
  | equal => twoValues.run fun a b => pure (.boolean (Value.equal a b))
  | negate => Signature.run ⟨[.single .boolean], none⟩ fun b => pure (.boolean (!b))
  | list => values.run Run.newList
  | first => oneList.run Library.first
  | rest => oneList.run Library.rest
  | cons => twoValues.run Library.cons
  | length => oneValue.run Library.length
  | isEmpty => oneValue.run fun v => pure (.boolean (Value.isNil v))
  | concat => Signature.run ⟨[], some .string⟩ fun texts =>
      pure (.string (Text.joinWith "" texts))
  | echo => values.run Library.echo
  | fail => values.run Library.fail

def arity : LibraryFunction → Arity
  | add | list | concat | echo | fail => .any
  | subtract | multiply => .atLeast 1
  | divide | numEqual | less | greater | atMost | atLeast => .atLeast 2
  | remainder | equal | cons => .exact 2
  | negate | first | rest | length | isEmpty => .exact 1

end LibraryFunction

def ControlForm.arity : ControlForm → Arity
  | .branch => .range 2 3
  | .sequence => .any

def Builtin.arity : Builtin → Arity
  | .form f => f.arity
  | .function f => f.arity

def Builtin.inspect (b : Builtin) : String :=
  "BuiltinOp \x7b id: " ++ String.ofList (Text.inspected b.name) ++ ", op_kind: " ++
    (if b.isForm then "SpecialForm(<fn>)" else "Function(<fn>)") ++ ", arity: " ++
    b.arity.inspect ++ " \x7d"

end Lisplet
