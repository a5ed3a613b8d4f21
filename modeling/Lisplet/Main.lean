import Lisplet.Session

/-! The console program: reads lines, lets a session answer them, and prints the answers. -/

namespace Lisplet.Console

def fileFault (error : IO.Error) : FileFault :=
  match error with
  | .noFileOrDirectory .. => .missing
  | .inappropriateType _ code _ => if code = 21 then .isFolder else .notFolder
  | error => .other (toString error)

def readFile (path : String) : IO (Except FileFault String) := do
  match ← (IO.FS.readBinFile path).toBaseIO with
  | .error error => return .error (fileFault error)
  | .ok bytes => return ((String.fromUTF8? bytes).elim (.error .notText) .ok)

def answer (scope : Scope) (world : World) (command : Session.Command) : IO World := do
  let source ← match command with
    | .load path => readFile path
    | _ => pure (.error .missing)
  match Session.answer (fun _ => source) ampleFuel scope command world with
  | some (_, world) =>
    IO.print world.transcript.printed
    return world.hush
  | none => throw (IO.userError "evaluation is nested too deeply")

partial def loop (scope : Scope) (world : World) : IO Unit := do
  let line ← (← IO.getStdin).getLine
  if line.isEmpty then IO.print Session.farewell
  else match Session.Command.ofLine line with
    | .quit => IO.print Session.farewell
    | command => loop scope (← answer scope world command)

end Lisplet.Console

def main : IO Unit := do
  IO.print Lisplet.Session.greeting
  let (scope, world) := Lisplet.Session.start
  Lisplet.Console.loop scope world
