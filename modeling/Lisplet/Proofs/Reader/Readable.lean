import Lisplet.Proofs.Decimal.Written
import Lisplet.Proofs.Reader.Recognition
import Lisplet.Proofs.Value.Equality
import Lisplet.Value.Printer
import Mathlib.Tactic.TFAE

/-! The values that source text can give. The text of such a value is read as a value equal to it,
and nothing else is read. -/

namespace Lisplet.Reader

open Decimal Value

inductive Readable : Value → Prop
  | number (n : Int64) : Readable (.number n)
  | real {x : Float} : x.isFinite = true → Readable (.real x)
  | string (s : String) : Readable (.string s)
  | boolean (b : Bool) : Readable (.boolean b)
  | symbol {name : String} : name ≠ "" → (∀ c ∈ name.toList, isTokenChar c = true) →
      IsName name.toList → Readable (.symbol name)
  | list {mark : Option ℕ} {items : List Value} : (∀ v ∈ items, Readable v) →
      Readable (.list mark items)

mutual

def unmarked : Value → Value
  | .list _ items => .ofList (unmarkedItems items)
  | v => v

def unmarkedItems : List Value → List Value
  | [] => []
  | v :: vs => unmarked v :: unmarkedItems vs

end

variable {options : Options}

/-! Printing sees no marks, and neither does equality. -/

lemma chars_list (mark : Option ℕ) (items : List Value) :
    (list mark items).chars = '(' :: (itemChars items ++ [')']) := rfl

mutual

lemma chars_unmarked (v : Value) : (unmarked v).chars = v.chars := by
  cases v with
  | list mark items => rw [unmarked, chars_list, chars_list, itemChars_unmarkedItems items]
  | _ => rfl

lemma itemChars_unmarkedItems (vs : List Value) :
    itemChars (unmarkedItems vs) = itemChars vs := by
  match vs with
  | [] => rfl
  | [v] => exact chars_unmarked v
  | v :: w :: vs =>
    have hvs := itemChars_unmarkedItems (w :: vs)
    rw [unmarkedItems] at hvs
    rw [unmarkedItems, unmarkedItems, itemChars, itemChars, chars_unmarked v, hvs]

end

lemma equalItems_unmarkedItems {vs : List Value} (h : ∀ v ∈ vs, equal (unmarked v) v = true) :
    equalItems (unmarkedItems vs) vs = true := by
  induction vs with
  | nil => rfl
  | cons v vs ih =>
    obtain ⟨hv, hvs⟩ := List.forall_mem_cons.1 h
    rw [unmarkedItems, equalItems, hv, ih hvs, Bool.and_self]

lemma Readable.equal_unmarked {v : Value} (h : Readable v) : equal (unmarked v) v = true := by
  induction h with
  | number n => exact beq_self_eq_true n
  | real hx => exact beq_self hx
  | string s => exact beq_self_eq_true s
  | boolean b => exact beq_self_eq_true b
  | symbol _ _ _ => exact beq_self_eq_true _
  | list _ ih => exact equalItems_unmarkedItems ih

lemma Readable.of_equal {v w : Value} (hw : Readable w) (h : equal w v = true) : Readable v := by
  induction hw generalizing v with
  | number _ => cases v with
    | number m => exact .number m
    | _ => cases h
  | real hx => cases v with
    | real y => exact .real (isFinite_of_beq h hx)
    | _ => cases h
  | string _ => cases v with
    | string t => exact .string t
    | _ => cases h
  | boolean _ => cases v with
    | boolean c => exact .boolean c
    | _ => cases h
  | symbol hne ht hn => cases v with
    | symbol other => exact eq_of_beq h ▸ .symbol hne ht hn
    | _ => cases h
  | list _ ih => cases v with
    | list mark vs =>
      refine .list fun v hv => ?_
      obtain ⟨w, hw, he⟩ := exists_mem_of_equalItems h v hv
      exact ih w hw he
    | _ => cases h

/-! Tokens. -/

lemma isTokenChar_of_isDigit {c : Char} (h : c.isDigit = true) : isTokenChar c = true := by
  rw [isTokenChar_iff]
  constructor
  · have hranges : ∀ range ∈ Text.blankRanges, range.2 < 48 ∨ 57 < range.1 := by decide
    obtain ⟨hlow, hhigh⟩ : 48 ≤ c.toNat ∧ c.toNat ≤ 57 := Char.isDigit_iff_toNat.1 h
    rw [Text.isBlank, List.any_eq_false]
    intro range hr
    have hout := hranges range hr
    simp only [Bool.and_eq_true, decide_eq_true_eq]
    omega
  · have hdelimiters : ∀ d ∈ delimiters, (!d.isDigit) = true := List.all_eq_true.1 rfl
    intro hc
    simpa [h] using hdelimiters c hc

lemma isTokenChar_of_numeral {c : Char} (h : c ∈ numeralMarks ∨ c.isDigit = true) :
    isTokenChar c = true := by
  have hmarks : ∀ d ∈ numeralMarks, isTokenChar d = true := List.all_eq_true.1 rfl
  exact h.elim (hmarks c) isTokenChar_of_isDigit

lemma spells_number (n : Int64) {rest : List Char} (hr : EndsToken rest) :
    Spells options (integerText n.toInt) (.atom (.number n)) rest := by
  have hs := spells_integerText n.toInt
  refine .token (startsNumeric_integer hs).ne_nil (fun c hc => ?_) hr (.number hs)
  exact isTokenChar_of_numeral ((hs.forall_mem c hc).imp_left mem_numeralMarks)

lemma spells_real {x : Float} (hx : x.isFinite = true) {rest : List Char} (hr : EndsToken rest) :
    Spells options (realText x) (.atom (.real x)) rest := by
  have hs := spells_realText hx
  refine .token (startsNumeric_real hs).ne_nil (fun c hc => ?_) hr
    (.real hs (not_spellsInteger_realText hx) hx)
  exact isTokenChar_of_numeral (hs.forall_mem c hc)

lemma spells_boolean (b : Bool) {rest : List Char} (hr : EndsToken rest) :
    Spells options (Value.boolean b).chars (.atom (.boolean b)) rest := by
  cases b with
  | true => exact .token (List.cons_ne_nil _ _) (List.all_eq_true.1 rfl) hr .yes
  | false => exact .token (List.cons_ne_nil _ _) (List.all_eq_true.1 rfl) hr .no

lemma spells_symbol {name : String} (hne : name ≠ "")
    (ht : ∀ c ∈ name.toList, isTokenChar c = true) (hn : IsName name.toList) {rest : List Char}
    (hr : EndsToken rest) : Spells options name.toList (.atom (.symbol name)) rest := by
  have hd := Denotes.symbol hn
  rw [String.ofList_toList] at hd
  exact .token (by simpa using hne) ht hr hd

lemma literal_escaped (cs : List Char) : Literal (cs.flatMap Text.escaped) cs := by
  induction cs with
  | nil => exact .nil
  | cons c cs ih =>
    rw [List.flatMap_cons, Text.escaped]
    split
    · next e he =>
      exact .escape (unescape?_eq_some.1 (Text.unescape?_eq_some_iff.2 he)) ih
    · next he => exact .plain (by rintro rfl; cases he) (by rintro rfl; cases he) ih

lemma spells_string (s : String) {rest : List Char} :
    Spells options (Text.quoted s) (.atom (.string s)) rest := by
  have h : Spells options (Text.quoted s) (.atom (.string (String.ofList s.toList))) rest :=
    .string (literal_escaped s.toList)
  rwa [String.ofList_toList] at h

/-! Forms. -/

lemma Items.gap {b : Bracket} {gap cs rest : List Char} {vs : List Value}
    (hg : Spells options gap .gap (cs ++ rest)) (h : Items options b cs vs rest) :
    Items options b (gap ++ cs) vs rest := by
  cases h with
  | nil hgaps =>
    rw [← List.append_assoc]
    exact .nil (.cons (by simpa using hg) hgaps)
  | cons hgaps hf hi =>
    rw [← List.append_assoc]
    exact .cons (.cons (by simpa using hg) hgaps) hf hi

lemma spells_space {rest : List Char} : Spells options [' '] .gap rest :=
  .space (by simp [spaces])

def IsPrinted (options : Options) (v : Value) : Prop :=
  ∀ rest, EndsToken rest → Form options v.chars (unmarked v) rest

lemma items_itemChars {vs : List Value} (h : ∀ v ∈ vs, IsPrinted options v) (rest : List Char) :
    Items options .round (itemChars vs ++ [')']) (unmarkedItems vs) rest := by
  match vs with
  | [] => exact .nil .nil
  | [v] => exact .cons .nil (h v List.mem_cons_self _ rfl) (.nil .nil)
  | v :: w :: vs =>
    obtain ⟨hv, hvs⟩ := List.forall_mem_cons.1 h
    have hi := Items.gap spells_space (items_itemChars hvs rest)
    have hv := hv ([' '] ++ (itemChars (w :: vs) ++ [')']) ++ rest) rfl
    have hall := Items.cons .nil hv hi
    rw [itemChars, List.append_assoc]
    exact hall

lemma Forms.gap {offset : ℕ} {gap text : List Char} {fs : List (ℕ × Value)}
    (hg : Spells options gap .gap text) (h : Forms options (offset + size gap) text fs) :
    Forms options offset (gap ++ text) fs := by
  cases h with
  | nil hgaps => exact .nil (.cons (by simpa using hg) hgaps)
  | cons hgaps hf hfs =>
    rw [Nat.add_assoc offset, ← size_append] at hfs ⊢
    rw [← List.append_assoc]
    exact .cons (.cons hg hgaps) hf hfs

lemma forms_itemChars {vs : List Value} (h : ∀ v ∈ vs, IsPrinted options v) (offset : ℕ) :
    ∃ fs, Forms options offset (itemChars vs) fs ∧ fs.map Prod.snd = unmarkedItems vs := by
  match vs with
  | [] => exact ⟨[], .nil .nil, rfl⟩
  | [v] =>
    have hv := h v List.mem_cons_self [] trivial
    have hend : Forms options (offset + size [] + size v.chars) [] [] := .nil .nil
    exact ⟨_, by simpa [itemChars] using Forms.cons .nil hv hend, rfl⟩
  | v :: w :: vs =>
    obtain ⟨hv, hvs⟩ := List.forall_mem_cons.1 h
    obtain ⟨fs, hfs, hmap⟩ := forms_itemChars hvs (offset + size [] + size v.chars + size [' '])
    have hv := hv ([' '] ++ itemChars (w :: vs)) rfl
    refine ⟨_, .cons .nil hv (.gap spells_space hfs), ?_⟩
    rw [List.map_cons, hmap]
    rfl

lemma Readable.isPrinted {v : Value} (h : Readable v) : IsPrinted options v := by
  induction h with
  | number n => exact fun _ hr => .atom (spells_number n hr)
  | real hx => exact fun _ hr => .atom (spells_real hx hr)
  | string s => exact fun _ _ => .atom (spells_string s)
  | boolean b => exact fun _ hr => .atom (spells_boolean b hr)
  | symbol hne ht hn => exact fun _ hr => .atom (spells_symbol hne ht hn hr)
  | list _ ih => exact fun rest _ => .list (items_itemChars ih rest)

/-! Whatever is read is readable. -/

lemma Denotes.readable {cs : List Char} {v : Value} (hne : cs ≠ [])
    (ht : ∀ c ∈ cs, isTokenChar c = true) (h : Denotes cs v) : Readable v := by
  cases h with
  | number _ => exact .number _
  | real _ _ hx => exact .real hx
  | yes => exact .boolean true
  | no => exact .boolean false
  | symbol hn =>
    refine .symbol ?_ ?_ ?_
    · simpa using hne
    · simpa using ht
    · simpa using hn

lemma Spells.readable {cs rest : List Char} {v : Value} (h : Spells options cs (.atom v) rest) :
    Readable v := by
  cases h with
  | string _ => exact .string _
  | token hne ht _ hv => exact hv.readable hne ht

lemma Readable.quoted {v : Value} (h : Readable v) :
    Readable (.ofList [.symbol "quote", v]) := by
  have hquote : Readable (.symbol "quote") :=
    .symbol (by decide) (List.all_eq_true.1 rfl) ⟨looksNumeric_iff.not.1 (by decide), by decide⟩
  refine .list fun w hw => ?_
  rcases List.mem_pair.1 hw with rfl | rfl
  · exact hquote
  · exact h

mutual

theorem Form.readable {cs rest : List Char} {v : Value} :
    Form options cs v rest → Readable v
  | .atom h => h.readable
  | .list h => .list (Items.readable h)
  | .quote _ h => (Form.readable h).quoted

theorem Items.readable {b : Bracket} {cs rest : List Char} {vs : List Value} :
    Items options b cs vs rest → ∀ v ∈ vs, Readable v
  | .nil _ => fun _ h => absurd h List.not_mem_nil
  | .cons _ hf h => List.forall_mem_cons.2 ⟨Form.readable hf, Items.readable h⟩

end

lemma Forms.readable {offset : ℕ} {text : List Char} {fs : List (ℕ × Value)}
    (h : Forms options offset text fs) : ∀ v ∈ fs.map Prod.snd, Readable v := by
  induction h with
  | nil _ => exact fun _ h => absurd h List.not_mem_nil
  | cons _ hf _ ih => exact List.forall_mem_cons.2 ⟨hf.readable, ih⟩

theorem readForms_itemChars (options : Options) (label : Option String) {vs : List Value}
    (h : ∀ v ∈ vs, Readable v) :
    ∃ fs, readForms options label (String.ofList (itemChars vs)) = .ok fs ∧
      fs.map Prod.snd = unmarkedItems vs := by
  obtain ⟨fs, hfs, hmap⟩ := forms_itemChars (fun v hv => (h v hv).isPrinted) 0
  refine ⟨fs, readForms_eq_ok.2 (forms_eq_ok_iff.2 ?_), hmap⟩
  rwa [String.toList_ofList]

theorem readable_of_readForms {label : Option String} {source : String} {fs : List (ℕ × Value)}
    (h : readForms options label source = .ok fs) : ∀ v ∈ fs.map Prod.snd, Readable v :=
  (forms_eq_ok_iff.1 (readForms_eq_ok.1 h)).readable

theorem readable_tfae (v : Value) : List.TFAE [
    Readable v,
    ∃ offset w, readForms defaultOptions none v.text = .ok [(offset, w)] ∧ (w == v) = true,
    ∃ source offset w, readForms defaultOptions none source = .ok [(offset, w)] ∧ (w == v) = true,
    ∃ options label source offset w, readForms options label source = .ok [(offset, w)] ∧
      (w == v) = true] := by
  tfae_have 1 → 2 := by
    intro h
    have hv : ∀ w ∈ [v], Readable w := List.forall_mem_singleton.2 h
    obtain ⟨fs, hfs, hmap⟩ := readForms_itemChars defaultOptions none hv
    obtain ⟨⟨offset, w⟩, rfl, rfl⟩ := List.map_eq_singleton_iff.1 hmap
    exact ⟨offset, _, hfs, h.equal_unmarked⟩
  tfae_have 2 → 3 := fun ⟨offset, w, h⟩ => ⟨v.text, offset, w, h⟩
  tfae_have 3 → 4 := fun ⟨source, offset, w, h⟩ =>
    ⟨defaultOptions, none, source, offset, w, h⟩
  tfae_have 4 → 1 := by
    rintro ⟨options, label, source, offset, w, h, he⟩
    exact (readable_of_readForms h w List.mem_cons_self).of_equal he
  tfae_finish

end Lisplet.Reader
