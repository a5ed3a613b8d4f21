/-! The kinds of values, and the operations that a value can be. -/

namespace Lisplet

inductive Kind where
  | number | real | string | boolean | symbol | list | function | operation | unspecified
deriving DecidableEq

def Kind.name : Kind → String
  | .number => "number"
  | .real => "real"
  | .string => "string"
  | .boolean => "boolean"
  | .symbol => "symbol"
  | .list => "list"
  | .function => "function"
  | .operation => "operation"
  | .unspecified => "unspecified"

inductive CoreForm where
  | define | assign | lambda | quote
deriving DecidableEq

def CoreForm.name : CoreForm → String
  | .define => "define"
  | .assign => "setf!"
  | .lambda => "lambda"
  | .quote => "quote"

def CoreForm.all : List CoreForm :=
  [.define, .assign, .lambda, .quote]

inductive ControlForm where
  | branch | sequence
deriving DecidableEq

def ControlForm.name : ControlForm → String
  | .branch => "if"
  | .sequence => "begin"

inductive LibraryFunction where
  | add | subtract | multiply | divide | remainder
  | numEqual | less | greater | atMost | atLeast
  | equal | negate
  | list | first | rest | cons | length | isEmpty
  | concat | echo | fail
deriving DecidableEq

def LibraryFunction.name : LibraryFunction → String
  | .add => "+"
  | .subtract => "-"
  | .multiply => "*"
  | .divide => "/"
  | .remainder => "%"
  | .numEqual => "="
  | .less => "<"
  | .greater => ">"
  | .atMost => "<="
  | .atLeast => ">="
  | .equal => "equal?"
  | .negate => "not"
  | .list => "list"
  | .first => "car"
  | .rest => "cdr"
  | .cons => "cons"
  | .length => "length"
  | .isEmpty => "null?"
  | .concat => "string-append"
  | .echo => "echo"
  | .fail => "error"

inductive Builtin where
  | form (form : ControlForm)
  | function (function : LibraryFunction)
deriving DecidableEq

def Builtin.name : Builtin → String
  | .form f => f.name
  | .function f => f.name

def Builtin.isForm : Builtin → Bool
  | .form _ => true
  | .function _ => false

def Builtin.all : List Builtin :=
  [.function .remainder, .function .multiply, .function .add, .function .subtract,
    .function .divide, .function .less, .function .atMost, .function .numEqual,
    .function .greater, .function .atLeast, .form .sequence, .function .first, .function .rest,
    .function .cons, .function .echo, .function .equal, .function .fail, .form .branch,
    .function .length, .function .list, .function .negate, .function .isEmpty, .function .concat]

def Builtin.find? (name : String) : Option Builtin :=
  Builtin.all.find? (·.name == name)

inductive Operation where
  | core (form : CoreForm)
  | builtin (operation : Builtin)
  | host (name : String)
deriving DecidableEq

def Operation.name : Operation → String
  | .core f => f.name
  | .builtin b => b.name
  | .host name => name

end Lisplet
