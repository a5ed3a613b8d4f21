import Lisplet.Location
import Lisplet.Reader.Token
import Lisplet.Text.Quoted

/-! Reading source text, one character at a time. The state of a reader holds the forms that are
finished, the lists and quote marks that are still open, and what the last character belongs to. -/

namespace Lisplet.Reader

inductive Bracket where
  | round | square | curly
deriving DecidableEq

def Bracket.ofOpener? : Char → Option Bracket
  | '(' => some .round
  | '[' => some .square
  | '\x7b' => some .curly
  | _ => none

def Bracket.ofCloser? : Char → Option Bracket
  | ')' => some .round
  | ']' => some .square
  | '\x7d' => some .curly
  | _ => none

inductive Level where
  | list (bracket : Bracket) (items : List Value)
  | quote

inductive Mode where
  | between
  | comment
  | token (start : Nat) (chars : List Char)
  | string (chars : List Char)
  | escape (chars : List Char)

structure Options where
  comments : Bool
deriving DecidableEq

def defaultOptions : Options := ⟨true⟩

/-- The state of a reader after a part of the text. `start` is where the open top-level form
begins. Finished forms, the items of open lists and the last characters are kept in reverse. -/
structure State where
  position : Nat
  mode : Mode
  levels : List Level
  start : Nat
  forms : List (Nat × Value)

structure Stop where
  kind : SyntaxFault.Kind
  offset : Nat
deriving DecidableEq

def initial : State :=
  ⟨0, .between, [], 0, []⟩

def place (start : Nat) (forms : List (Nat × Value)) :
    List Level → Value → List Level × List (Nat × Value)
  | [], v => ([], (start, v) :: forms)
  | .list bracket items :: levels, v => (.list bracket (v :: items) :: levels, forms)
  | .quote :: levels, v => place start forms levels v.quoted

namespace State

def deliver (s : State) (v : Value) : State :=
  let (levels, forms) := place s.start s.forms s.levels v
  { s with mode := .between, levels := levels, forms := forms }

def begin (s : State) : State :=
  { s with start := if s.levels.isEmpty then s.position else s.start }

def enter (s : State) (level : Level) : State :=
  { s.begin with mode := .between, levels := level :: s.levels }

def close (s : State) (bracket : Bracket) : Except Stop State :=
  match s.levels with
  | .list opener items :: levels =>
    if opener = bracket then
      .ok ({ s with levels := levels }.deliver (.ofList items.reverse))
    else .error ⟨.mismatched, s.position⟩
  -- right behind a quote mark this is so in an open list too
  | _ => .error ⟨.unexpected, s.position⟩

def dispatch (options : Options) (s : State) (c : Char) : Except Stop State :=
  if Text.isSpace c then .ok s
  else if c = ';' then
    if options.comments then .ok { s with mode := .comment } else .error ⟨.invalid, s.position⟩
  else if c = '"' then .ok { s.begin with mode := .string [] }
  else if c = '\x27' then .ok (s.enter .quote)
  else match Bracket.ofOpener? c, Bracket.ofCloser? c with
    | some bracket, _ => .ok (s.enter (.list bracket []))
    | _, some bracket => s.close bracket
    | none, none =>
      if Text.isBlank c then .error ⟨.invalid, s.position⟩
      else .ok { s.begin with mode := .token s.position [c] }

def settle (s : State) : Except Stop State :=
  match s.mode with
  | .token start chars =>
    match atom? chars.reverse with
    | some v => .ok (s.deliver v)
    | none => .error ⟨.invalid, start⟩
  | _ => .ok s

def read (options : Options) (s : State) (c : Char) : Except Stop State :=
  match s.mode with
  | .between => s.dispatch options c
  | .comment => .ok (if c = '\n' then { s with mode := .between } else s)
  | .token start chars =>
    if isTokenChar c then .ok { s with mode := .token start (c :: chars) }
    else s.settle.bind (·.dispatch options c)
  | .string chars =>
    if c = '"' then .ok (s.deliver (.string (String.ofList chars.reverse)))
    else if c = '\\' then .ok { s with mode := .escape chars }
    else .ok { s with mode := .string (c :: chars) }
  | .escape chars =>
    match Text.unescape? c with
    | some d => .ok { s with mode := .string (d :: chars) }
    -- the fault is at the backslash
    | none => .error ⟨.invalid, s.position - 1⟩

def feed (options : Options) (s : State) (c : Char) : Except Stop State :=
  (s.read options c).map fun t => { t with position := s.position + c.utf8Size }

def inString (s : State) : Bool :=
  match s.mode with
  | .string _ | .escape _ => true
  | _ => false

def finish (s : State) : Except Stop (List (Nat × Value)) :=
  s.settle.bind fun t =>
    if t.inString || !t.levels.isEmpty then .error ⟨.incomplete, t.position⟩
    else .ok t.forms.reverse

end State

def feedAll (options : Options) (s : State) (text : List Char) : Except Stop State :=
  text.foldlM (State.feed options) s

def forms (options : Options) (text : List Char) : Except Stop (List (Nat × Value)) :=
  (feedAll options initial text).bind State.finish

def readForms (options : Options) (label : Option String) (source : String) :
    Except SyntaxFault (List (Nat × Value)) :=
  (forms options source.toList).mapError fun stop => ⟨stop.kind, source, stop.offset, label⟩

end Lisplet.Reader
