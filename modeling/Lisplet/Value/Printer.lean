import Lisplet.Decimal.Writer
import Lisplet.Text.Layout
import Lisplet.Text.Quoted
import Lisplet.Value.Basic

/-! The texts of values: `text` writes source text where there is one, `inspect` shows structure. -/

namespace Lisplet.Value

mutual

def chars : Value → List Char
  | number n => Decimal.integerText n.toInt
  | real x => Decimal.realText x
  | string s => Text.quoted s
  | boolean true => ['#', 't']
  | boolean false => ['#', 'f']
  | symbol name => name.toList
  | list _ items => '(' :: itemChars items ++ [')']
  | function .. => "#<function>".toList
  | operation op => "#<operation:".toList ++ op.name.toList ++ ['>']
  | unspecified => "#<unspecified>".toList

def itemChars : List Value → List Char
  | [] => []
  | [v] => chars v
  | v :: w :: rest => chars v ++ ' ' :: itemChars (w :: rest)

end

def text (v : Value) : String :=
  String.ofList v.chars

def shown : Value → String
  | string s => s
  | v => v.text

def inspectSymbol (name : String) : List Char :=
  "Symbol(".toList ++ name.toList ++ [')']

mutual

def inspectChars : Value → List Char
  | number n => "Number(".toList ++ Decimal.integerText n.toInt ++ [')']
  | real x => "Real(".toList ++ Decimal.realText x ++ [')']
  | string s => "String(".toList ++ Text.inspected s ++ [')']
  | boolean b => "Bool(".toList ++ (if b then "true" else "false").toList ++ [')']
  | symbol name => inspectSymbol name
  | list _ items => "List(".toList ++ inspectItems items ++ [')']
  | function _ params body _ =>
    "Function(params=[".toList ++ Text.joined [',', ' '] (params.map inspectSymbol) ++
      "], body=[".toList ++ inspectItems body ++ [']', ')']
  | operation op => "Operation(".toList ++ op.name.toList ++ [')']
  | unspecified => "Unspecified".toList

def inspectItems : List Value → List Char
  | [] => []
  | [v] => inspectChars v
  | v :: w :: rest => inspectChars v ++ ',' :: ' ' :: inspectItems (w :: rest)

end

def inspect (v : Value) : String :=
  String.ofList v.inspectChars

end Lisplet.Value
