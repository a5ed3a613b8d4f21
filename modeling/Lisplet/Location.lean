import Lisplet.Decimal.Writer

/-! Faults of source text and where they are. Offsets and columns count bytes of UTF-8. -/

namespace Lisplet

inductive SyntaxFault.Kind where
  | incomplete | mismatched | unexpected | invalid
deriving DecidableEq

def SyntaxFault.Kind.reason : SyntaxFault.Kind → String
  | .incomplete => "unexpected end of input"
  | .mismatched => "mismatched delimiter"
  | .unexpected => "unexpected closing delimiter"
  | .invalid => "invalid token"

structure SyntaxFault where
  kind : SyntaxFault.Kind
  source : String
  offset : Nat
  label : Option String
deriving DecidableEq

namespace Location

def lineFeeds : Nat → List Char → List Nat
  | _, [] => []
  | offset, c :: cs =>
    if c = '\n' then offset :: lineFeeds (offset + c.utf8Size) cs
    else lineFeeds (offset + c.utf8Size) cs

def lineFeedsBefore (source : String) (offset : Nat) : List Nat :=
  (lineFeeds 0 source.toList).filter (· < offset)

def line (source : String) (offset : Nat) : Nat :=
  (lineFeedsBefore source offset).length + 1

def column (source : String) (offset : Nat) : Nat :=
  match (lineFeedsBefore source offset).getLast? with
  | some lineFeed => offset - lineFeed
  | none => offset + 1

end Location

namespace SyntaxFault

def line (fault : SyntaxFault) : Nat :=
  Location.line fault.source fault.offset

def column (fault : SyntaxFault) : Nat :=
  Location.column fault.source fault.offset

def shownLabel (fault : SyntaxFault) : String :=
  fault.label.getD ""

def place (fault : SyntaxFault) : String :=
  (if fault.shownLabel = "" then "" else fault.shownLabel ++ ":") ++
    Decimal.countText fault.line ++ ":" ++ Decimal.countText fault.column

def message (fault : SyntaxFault) : String :=
  "parsing error on " ++ fault.place

end SyntaxFault

end Lisplet
