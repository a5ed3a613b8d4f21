import Lisplet.Eval.Global
import Lisplet.Reader.Basic

/-! Programs: the forms of a source text, read as a whole and executed in order. -/

namespace Lisplet

structure Program where
  source : String
  label : Option String
  entries : List (Nat × Value)

namespace Program

def ofSource (options : Reader.Options) (label : Option String) (source : String) :
    Except SyntaxFault Program :=
  (Reader.readForms options label source).map fun entries => ⟨source, label, entries⟩

def forms (program : Program) : List Value :=
  program.entries.map Prod.snd

def form? (program : Program) (index : Nat) : Option Value :=
  program.forms[index]?

def offset? (program : Program) (index : Nat) : Option Nat :=
  (program.entries.map Prod.fst)[index]?

def replaceForm (_ : Program) (index : Nat) (_ : Value) : Except Fault Program :=
  .error (.refused (.replaceForm index))

def removeForm (_ : Program) (index : Nat) : Except Fault Program :=
  .error (.refused (.removeForm index))

def text (program : Program) : String :=
  String.ofList (Value.itemChars program.forms)

def readsBack (program : Program) : Bool :=
  match ofSource Reader.defaultOptions none program.text with
  | .ok again => Value.equalItems again.forms program.forms
  | .error _ => false

def inspect (program : Program) : String :=
  "Program \x7b file: " ++
    (match program.label with
      | some label => "Some(" ++ String.ofList (Text.inspected label) ++ ")"
      | none => "None") ++
    ", forms: [" ++ String.ofList (Value.inspectItems program.forms) ++ "] \x7d"

def entriesOf (options : Reader.Options) (label : Option String) (source : String) :
    Run (List (Nat × Value)) :=
  match Reader.readForms options label source with
  | .ok entries => pure entries
  | .error fault => do
    Run.log (.stopped fault.kind fault.offset)
    Run.fail (.parse fault)

def formsOf (source : String) : Run (List Value) := do
  return (← entriesOf Reader.defaultOptions none source).map Prod.snd

def parse (options : Reader.Options) (label : Option String) (source : String) : Run Program := do
  let entries ← entriesOf options label source
  Run.log (.parsed entries.length label)
  return ⟨source, label, entries⟩

def load (read : String → Except FileFault String) (path : String) : Run Program := do
  Run.log (.loading path)
  match read path with
  | .ok source => parse Reader.defaultOptions (some path) source
  | .error cause => Run.fail (.file path cause)

def executeFrom (host : Host) (fuel : Nat) (scope : Scope) :
    Nat → Value → List Value → Run Value
  | _, last, [] => pure last
  | index, _, form :: rest => do
    Run.log (.executing index form)
    let v ← eval host fuel form scope
    executeFrom host fuel scope (index + 1) v rest

def execute (host : Host) (fuel : Nat) (program : Program) (scope : Scope) : Run Value :=
  executeFrom host fuel scope 0 .unspecified program.forms

end Program

namespace Value

def assignItem (_ : List Value) (index : Nat) (_ : Value) : Except Fault (List Value) :=
  .error (.refused (.assignItem index))

def removeItem (_ : List Value) (index : Nat) : Except Fault (List Value) :=
  .error (.refused (.removeItem index))

end Value

end Lisplet
