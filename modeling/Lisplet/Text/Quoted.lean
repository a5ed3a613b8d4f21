import Lisplet.Text.Blank

/-! Quoted texts: the string literals of source text, and the wider quoting of inspected strings. -/

namespace Lisplet.Text

def escape? : Char → Option Char
  | '"' => some '"'
  | '\\' => some '\\'
  | '\n' => some 'n'
  | '\t' => some 't'
  | '\r' => some 'r'
  | _ => none

def unescape? : Char → Option Char
  | '"' => some '"'
  | '\\' => some '\\'
  | 'n' => some '\n'
  | 't' => some '\t'
  | 'r' => some '\r'
  | _ => none

theorem unescape?_eq_some_iff {c e : Char} : unescape? e = some c ↔ escape? c = some e := by
  unfold unescape? escape?
  constructor <;> intro h <;> split at h <;> simp_all <;> subst h <;> rfl

def escaped (c : Char) : List Char :=
  match escape? c with
  | some e => ['\\', e]
  | none => [c]

def quoted (s : String) : List Char :=
  '"' :: s.toList.flatMap escaped ++ ['"']

def isHidden (c : Char) : Bool :=
  c.toNat < 0x20 || (0x7F ≤ c.toNat && c.toNat < 0xA0) || (isBlank c && c != ' ')

def inspectedChar (c : Char) : List Char :=
  match escape? c with
  | some e => ['\\', e]
  | none =>
    if c.toNat = 0 then ['\\', '0']
    else if isHidden c then "\\u\x7b".toList ++ Nat.toDigits 16 c.toNat ++ "\x7d".toList
    else [c]

def inspected (s : String) : List Char :=
  '"' :: s.toList.flatMap inspectedChar ++ ['"']

end Lisplet.Text
