import Lisplet.Decimal.Literal
import Lisplet.Text.Blank
import Lisplet.Value.Basic

/-! Tokens: the characters they are made of and the values they stand for. -/

namespace Lisplet.Reader

def delimiters : List Char :=
  ['(', ')', '[', ']', '\x7b', '\x7d', '"', ';', '\x27']

def isTokenChar (c : Char) : Bool :=
  !Text.isBlank c && !delimiters.contains c

def looksNumeric (token : List Char) : Bool :=
  match (Decimal.takeSign token).2 with
  | '.' :: c :: _ => c.isDigit
  | c :: _ => c.isDigit
  | [] => false

def numberOf? (token : List Char) : Option Value :=
  match Decimal.readInteger? token with
  | some n => (Integer.fit? n).map .number
  | none =>
    match Decimal.readReal? token with
    | some x => if x.isFinite then some (.real x) else none
    | none => none

def atom? (token : List Char) : Option Value :=
  if looksNumeric token then numberOf? token
  else match token with
    | ['#', 't'] => some (.boolean true)
    | ['#', 'f'] => some (.boolean false)
    | '#' :: _ => none
    | _ => some (.symbol (String.ofList token))

end Lisplet.Reader
