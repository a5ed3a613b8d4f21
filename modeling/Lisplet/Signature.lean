import Lisplet.Arity
import Lisplet.Value.Convert

/-! Functions with typed parameters, called on values. A signature has fixed parameters and maybe
one for all further arguments. Arguments are converted from left to right. -/

namespace Lisplet

inductive Element where
  | value | number | boolean | string

abbrev Element.Carrier : Element → Type
  | .value => Value
  | .number => Int64
  | .boolean => Bool
  | .string => String

def Element.convert : (element : Element) → Value → Except Fault element.Carrier
  | .value, v => .ok v
  | .number, v => v.toInteger
  | .boolean, v => v.toBool
  | .string, v => v.toText

def Element.wanted? : Element → Option Kind
  | .value => none
  | .number => some .number
  | .boolean => some .boolean
  | .string => some .string

def Element.refusal? (element : Element) (v : Value) : Option Fault :=
  element.wanted?.bind fun wanted => if v.kind = wanted then none else some (v.expected wanted)

def Element.check (element : Element) (vs : List Value) : Except Fault Unit :=
  match vs.findSome? element.refusal? with
  | some fault => .error fault
  | none => .ok ()

def Element.project? : (element : Element) → Value → Option element.Carrier
  | .value, v => some v
  | .number, .number n => some n
  | .boolean, .boolean b => some b
  | .string, .string s => some s
  | _, _ => none

def Element.convertAll (element : Element) (vs : List Value) :
    Except Fault (List element.Carrier) :=
  (element.check vs).map fun _ => vs.filterMap element.project?

inductive Param where
  | single (element : Element)
  | real
  | list (element : Element)

abbrev Param.Carrier : Param → Type
  | .single element => element.Carrier
  | .real => Float
  | .list element => List element.Carrier

def Param.convert : (param : Param) → Value → Except Fault param.Carrier
  | .single element, v => element.convert v
  | .real, v => v.toReal
  | .list element, v => v.toItems.bind element.convertAll

structure Signature where
  fixed : List Param
  rest : Option Element

namespace Signature

abbrev Arrow (ρ : Type) : List Param → Option Element → Type
  | [], none => ρ
  | [], some element => List element.Carrier → ρ
  | param :: params, rest => param.Carrier → Arrow ρ params rest

abbrev Handler (signature : Signature) (ρ : Type) : Type :=
  Arrow ρ signature.fixed signature.rest

def accepts (signature : Signature) (count : Nat) : Bool :=
  match signature.rest with
  | none => count == signature.fixed.length
  | some _ => signature.fixed.length ≤ count

def applyTo {ρ : Type} : (params : List Param) → (rest : Option Element) → Arrow ρ params rest →
    List Value → Option (Except Fault ρ)
  | [], none, f, _ => some (.ok f)
  | [], some element, f, args => some ((element.convertAll args).map f)
  | _ :: _, _, _, [] => none
  | param :: params, rest, f, arg :: args =>
    match param.convert arg with
    | .error fault => some (.error fault)
    | .ok x => applyTo params rest (f x) args

def call {ρ : Type} (signature : Signature) (f : signature.Handler ρ) (args : List Value) :
    Except Fault ρ :=
  (if signature.accepts args.length then applyTo signature.fixed signature.rest f args
    else none).getD (.error (.arity signature.fixed.length args.length none))

end Signature

end Lisplet
