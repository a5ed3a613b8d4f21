import Lisplet.Eval.Global

/-! Operations of a sample application, for every way in which a host can supply one. -/

namespace Lisplet.Toolkit

def typed (signature : Signature) (f : signature.Handler (Run Value)) : Primitive :=
  .function (signature.run f)

def checked (arity : Arity) (signature : Signature) (f : signature.Handler (Run Value)) :
    Primitive :=
  .function fun args => do
    Run.ofExcept (arity.check args.length)
    signature.run f args

def total (numbers : List Int64) : Int64 :=
  numbers.foldl (· + ·) 0

def repeated (s : String) (n : Int64) : String :=
  String.join (List.replicate (min n.toInt.toNat 8) s)

def seven : Run Value :=
  pure (.number 7)

def raise (kind message : String) : Run Value :=
  match kind with
  | "eval" => Run.fail (.failure (.raised message) none)
  | "type" => Run.fail (.mismatch (.other message) none)
  | "unbound" => Run.fail (.unbound message)
  | "malformed" => Run.fail (.malformed (.other message))
  | "unsupported" => Run.fail (.refused (.other message))
  | "arity" => Run.fail (.arity 3 4 none)
  | "arity-expr" => Run.fail (.arity 3 4 (some message))
  | "io" => Run.fail (.file "p" (.other message))
  | _ => pure (.string message)

def fixed : Host :=
  [("h-seven", typed ⟨[], none⟩ seven),
    ("h-double", typed ⟨[.single .number], none⟩ fun n => pure (.number (2 * n))),
    ("h-fdiv", typed ⟨[.real, .real], none⟩ fun x y => pure (.real (x / y))),
    ("h-xor", typed ⟨[.single .boolean, .single .boolean], none⟩ fun a b =>
      pure (.boolean (a != b))),
    ("h-repeat", typed ⟨[.single .string, .single .number], none⟩ fun s n =>
      pure (.string (repeated s n))),
    ("h-type", typed ⟨[.single .value], none⟩ fun v => pure (.string (Value.kind v).name)),
    ("h-swap", typed ⟨[.single .value, .single .value], none⟩ fun a b => Run.newList [b, a]),
    ("h-sum", typed ⟨[.list .number], none⟩ fun ns => pure (.number (total ns))),
    ("h-all", typed ⟨[.list .boolean], none⟩ fun bs => pure (.boolean (bs.all id))),
    ("h-join", typed ⟨[.list .string], none⟩ fun ss => pure (.string (Text.joinWith "|" ss))),
    ("h-count", typed ⟨[.list .value], none⟩ fun vs => pure (.ofCount vs.length)),
    ("h-three", typed ⟨[.single .number, .single .string, .single .boolean], none⟩ fun n s b =>
      Run.newList [.boolean b, .string s, .number n]),
    ("h-four", typed ⟨[.single .number, .real, .single .boolean, .single .string], none⟩
      fun n x b s => Run.newList [.string s, .boolean b, .real x, .number n]),
    ("h-raise", typed ⟨[.single .string, .single .string], none⟩ raise)]

def variadic : Host :=
  [("v-sum", checked (.range 1 3) ⟨[], some .number⟩ fun ns => pure (.number (total ns))),
    ("v-all", checked .any ⟨[], some .boolean⟩ fun bs => pure (.boolean (bs.all id))),
    ("v-join", checked (.exact 2) ⟨[], some .string⟩ fun ss =>
      pure (.string (Text.joinWith "|" ss))),
    ("v-count", checked (.atLeast 1) ⟨[], some .value⟩ fun vs => pure (.ofCount vs.length)),
    ("v-join-with", checked .any ⟨[.single .string], some .string⟩ fun separator ss =>
      pure (.string (Text.joinWith separator ss))),
    ("v-affine", checked (.atLeast 1) ⟨[.single .number, .single .number], some .number⟩
      fun a b ns => pure (.number (a * total ns + b))),
    ("v-rot3", checked (.range 2 5) ⟨[.single .value, .single .boolean, .real], some .value⟩
      fun a b c vs => Run.newList (vs ++ [.real c, .boolean b, a]))]

def noteAll (what : String) (vs : List Value) : Run Value := do
  vs.forM fun v => Run.note (what ++ " " ++ v.text)
  pure .unspecified

def evalTwice (go : Performer) (operands : List Value) (scope : Scope) : Run Value := do
  Eval.sequence go (← Eval.args go operands scope) scope

def applyToItems (go : Performer) (operands : List Value) (scope : Scope) : Run Value := do
  match ← Eval.args go operands scope with
  | [operator, .list _ items] => go (.apply operator items) scope
  | _ => Run.fail (.malformed (.other "s-apply"))

def evalLocally (go : Performer) (operands : List Value) (scope : Scope) : Run Value := do
  Eval.sequence go operands (← Run.extend (some scope) [])

def untyped : Host :=
  [("nargs", .function fun args => pure (.ofCount args.length)),
    ("record", .function (noteAll "val")),
    ("record-raw", .form fun _ operands _ => noteAll "raw" operands),
    ("s-eval", .form evalTwice),
    ("s-apply", .form applyToItems),
    ("s-local", .form evalLocally)]

def host : Host :=
  fixed ++ variadic ++ untyped

end Lisplet.Toolkit
