import Lisplet.Program
import Lisplet.Text.Blank

/-! A session at a console: lines are commands or source text, and each is answered in print. -/

namespace Lisplet.Session

inductive Command where
  | nothing
  | help
  | bindings
  | quit
  | load (path : String)
  | source (text : String)
deriving DecidableEq

def loadWord : List Char := ":load ".toList

def Command.ofLine (line : String) : Command :=
  match Text.trim line with
  | "" => .nothing
  | ":help" => .help
  | ":env" => .bindings
  | ":quit" => .quit
  | ":exit" => .quit
  | text =>
    if loadWord.isPrefixOf text.toList then
      .load (Text.trim (String.ofList (text.toList.drop loadWord.length)))
    else .source text

def lines (texts : List String) : String :=
  String.join (texts.map (· ++ "\n"))

def greeting : String :=
  lines
    ["Psp interpreter",
      "Enter forms like: (define sub (lambda [a b] \x7b- a b\x7d))",
      "Type :help for more commands, or Ctrl+C to exit.",
      ""]

def farewell : String :=
  lines ["Goodbye!"]

def helpText : String :=
  lines
    ["Psp interpreter:",
      "  :help        - Show this help message",
      "  :env         - Show current scope bindings",
      "  :load <path> - Run a source file in the current scope",
      "  :quit        - Exit the interpreter",
      "  :exit        - Exit the interpreter",
      "  Ctrl+C       - Exit the interpreter",
      "",
      "Core forms:",
      "  (define name value)    bind in the current scope",
      "  (setf! name value)     overwrite an existing binding",
      "  (lambda [params] body) create a closure",
      "  (quote form), 'form    return a form unevaluated",
      "",
      "Brackets (), [] and \x7b\x7d are interchangeable; ; starts a comment.",
      "",
      "Examples:",
      "  (define add +)",
      "  (define sub (lambda [a b] \x7b- a b\x7d))",
      "  (echo (sub (add 5 7) 3))",
      ""]

def printHelp : Run Value := do
  Run.print helpText
  pure .unspecified

def host : Host :=
  [("help", .function (Signature.run ⟨[], none⟩ printHelp))]

def columns : List String → String
  | a :: b :: c :: d :: rest => String.join ([a, b, c, d].map cell) ++ "\n" ++ columns rest
  | [] => ""
  | names => String.join (names.map cell) ++ "\n"
where
  cell (name : String) : String := "  " ++ Text.padRight 15 name

def isOperation : Value → Bool
  | .operation _ => true
  | _ => false

def operationsText (names : List String) : String :=
  if names.isEmpty then ""
  else "Operations (" ++ Decimal.countText names.length ++ "):\n" ++ columns names ++ "\n"

def valuesText (bindings : Bindings) : String :=
  if bindings.isEmpty then ""
  else "User-defined values (" ++ Decimal.countText bindings.length ++ "):\n" ++
    lines (bindings.map fun entry => "  " ++ entry.1 ++ " = " ++ entry.2.text)

def bindingsText (bindings : Bindings) : String :=
  if bindings.isEmpty then lines ["Scope is empty."]
  else "Scope bindings (" ++ Decimal.countText bindings.length ++ " total):\n\n" ++
    operationsText (Bindings.names (bindings.filter fun entry => isOperation entry.2)) ++
    valuesText (bindings.filter fun entry => !isOperation entry.2)

def caretLines (fault : SyntaxFault) : List String :=
  ["  " ++ fault.source, "  " ++ Text.padLeft fault.column "^"]

def faultText : Fault → String
  | .parse fault =>
    lines (("Error: " ++ fault.message ++ " (" ++ fault.kind.reason ++ ")") ::
      if fault.shownLabel = "" then caretLines fault else [])
  | fault => lines ["Error: " ++ fault.message]

def outcomeText : Except Fault Value → String
  | .ok .unspecified => ""
  | .ok v => lines [v.text]
  | .error fault => faultText fault

def execute (fuel : Nat) (scope : Scope) (program : Run Program) : Run Unit := do
  let outcome ← Run.attempt (program >>= fun p => p.execute host fuel scope)
  Run.print (outcomeText outcome)

def answer (read : String → Except FileFault String) (fuel : Nat) (scope : Scope) :
    Command → Run Unit
  | .nothing | .quit => pure ()
  | .help => Run.print helpText
  | .bindings => do Run.print (bindingsText ((← Run.store).visible scope))
  | .load path => execute fuel scope (Program.load read path)
  | .source text => execute fuel scope (Program.parse Reader.defaultOptions none text)

def answerAll (read : String → Except FileFault String) (fuel : Nat) (scope : Scope) :
    List String → Run Unit
  | [] => Run.print farewell
  | line :: rest =>
    match Command.ofLine line with
    | .quit => Run.print farewell
    | command => do
      answer read fuel scope command
      answerAll read fuel scope rest

def splitLines : List Char → List Char → List String
  | [], [] => []
  | line, [] => [String.ofList line.reverse]
  | line, c :: cs =>
    if c = '\n' then String.ofList line.reverse :: splitLines [] cs
    else splitLines (c :: line) cs

def start : Scope × World :=
  World.start (Bindings.global.override host.bindings)

def transcript (read : String → Except FileFault String) (fuel : Nat) (input : String) :
    Option String :=
  let (scope, world) := start
  let run := Run.print greeting >>= fun _ =>
    answerAll read fuel scope (splitLines [] input.toList)
  (run world).map fun result => result.2.transcript.printed

end Lisplet.Session
