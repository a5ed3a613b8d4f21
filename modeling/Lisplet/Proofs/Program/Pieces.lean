import Lisplet.Proofs.Program.RoundTrip
import Lisplet.Proofs.Reader.Faults

/-! A source text cut at the offsets of its forms. In front of the first form stands no form, and
each piece from one offset to the next is read by itself as the one form that begins there. -/

namespace Lisplet.Reader

def slice (source : String) (start stop : ℕ) : String :=
  String.Pos.Raw.extract source ⟨start⟩ ⟨stop⟩

inductive Pieces (options : Options) : ℕ → List Char → List (ℕ × Value) → Prop
  | nil {offset : ℕ} : Pieces options offset [] []
  | cons {offset : ℕ} {cs gaps rest : List Char} {v : Value} {fs : List (ℕ × Value)} :
      Form options cs v gaps → Gaps options gaps [] →
      Pieces options (offset + size (cs ++ gaps)) rest fs →
      Pieces options offset ((cs ++ gaps) ++ rest) ((offset, v) :: fs)

variable {options : Options} {rest rest' : List Char}

/-! What stands behind a form can be cut off. -/

lemma Follows.append (h : Follows rest rest') (cs : List Char) :
    Follows (cs ++ rest) (cs ++ rest') := by
  cases cs with
  | nil => exact h
  | cons c cs => exact .of_head?_eq rfl

lemma Follows.cut (cs rest : List Char) : Follows (cs ++ rest) cs := by
  cases cs with
  | nil => exact fun _ hc => nomatch hc
  | cons c cs => exact .of_head?_eq rfl

lemma Gaps.follow {gaps : List Char} (h : Gaps options gaps rest) (hr : Follows rest rest') :
    Gaps options gaps rest' := by
  induction h with
  | nil => exact .nil
  | cons hg _ ih => exact .cons (hg.follow (hr.append _)) (ih hr)

mutual

theorem Form.follow {cs rest rest' : List Char} {v : Value} :
    Form options cs v rest → Follows rest rest' → Form options cs v rest'
  | .atom h, hr => .atom (h.follow hr)
  | .list h, hr => .list (h.follow hr)
  | .quote hg h, hr => .quote (hg.follow (hr.append _)) (h.follow hr)

theorem Items.follow {b : Bracket} {cs rest rest' : List Char} {vs : List Value} :
    Items options b cs vs rest → Follows rest rest' → Items options b cs vs rest'
  | .nil hg, hr => .nil (hg.follow (hr.append [b.closer]))
  | .cons hg hf h, hr =>
    .cons (hg.follow ((hr.append _).append _)) (hf.follow (hr.append _)) (h.follow hr)

end

lemma Forms.pieces {offset : ℕ} {text : List Char} {fs : List (ℕ × Value)}
    (h : Forms options offset text fs) :
    ∃ lead rest, text = lead ++ rest ∧ Gaps options lead [] ∧
      Pieces options (offset + size lead) rest fs := by
  induction h with
  | nil hg => exact ⟨_, [], (List.append_nil _).symm, hg, .nil⟩
  | @cons offset gaps cs _ v fs hg hf _ ih =>
    obtain ⟨lead, rest, rfl, hl, hp⟩ := ih
    have hgaps : Gaps options gaps [] := hg.follow (.cut [] _)
    have hform : Form options cs v lead := hf.follow (.cut lead rest)
    rw [Nat.add_assoc (offset + size gaps), Nat.add_assoc, ← size_append] at hp
    exact ⟨gaps, _, by rw [List.append_assoc cs], hgaps, .cons hform hl (by rwa [Nat.add_assoc])⟩

/-! The pieces and their offsets. -/

namespace Pieces

variable {offset : ℕ} {text : List Char} {fs : List (ℕ × Value)}

lemma le_offset (h : Pieces options offset text fs) : ∀ entry ∈ fs, offset ≤ entry.1 := by
  induction h with
  | nil => exact fun _ he => nomatch he
  | cons _ _ _ ih =>
    refine List.forall_mem_cons.2 ⟨le_rfl, fun entry he => ?_⟩
    exact (Nat.le_add_right _ _).trans (ih entry he)

lemma pairwise_lt (h : Pieces options offset text fs) :
    (fs.map Prod.fst).Pairwise (· < ·) := by
  induction h with
  | nil => exact .nil
  | @cons offset cs gaps _ _ _ hf _ h ih =>
    refine List.pairwise_cons.2 ⟨fun o ho => ?_, ih⟩
    obtain ⟨entry, he, rfl⟩ := List.mem_map.1 ho
    have hpos : 0 < size (cs ++ gaps) := size_pos (by simp [hf.ne_nil])
    exact (Nat.lt_add_of_pos_right hpos).trans_le (h.le_offset entry he)

lemma head_offset (h : Pieces options offset text fs) :
    ((fs.map Prod.fst)[0]?).getD (offset + size text) = offset := by
  cases h with
  | nil => rfl
  | cons _ _ _ => rfl

lemma exists_piece (h : Pieces options offset text fs) {i o : ℕ} {v : Value}
    (hi : fs[i]? = some (o, v)) :
    ∃ front cs gaps rest, text = front ++ (cs ++ gaps) ++ rest ∧ o = offset + size front ∧
      ((fs.map Prod.fst)[i + 1]?).getD (offset + size text) = o + size (cs ++ gaps) ∧
      Form options cs v gaps ∧ Gaps options gaps [] := by
  induction h generalizing i with
  | nil => cases hi
  | @cons offset cs gaps rest w fs hf hg h ih =>
    have hsize : offset + size ((cs ++ gaps) ++ rest) =
        offset + size (cs ++ gaps) + size rest := by
      rw [size_append, Nat.add_assoc]
    rw [hsize]
    cases i with
    | zero =>
      cases hi
      exact ⟨[], cs, gaps, rest, rfl, rfl, h.head_offset, hf, hg⟩
    | succ i =>
      obtain ⟨front, cs', gaps', rest', rfl, rfl, hnext, hf', hg'⟩ := ih hi
      refine ⟨(cs ++ gaps) ++ front, cs', gaps', rest', by simp, ?_, hnext, hf', hg'⟩
      rw [size_append (cs ++ gaps) front, Nat.add_assoc]

end Pieces

/-! Slices of a source text. -/

lemma slice_eq {source : String} {front middle rest : List Char}
    (h : source.toList = front ++ middle ++ rest) :
    slice source (size front) (size front + size middle) = String.ofList middle := by
  rw [slice, ← String.ofList_toList (s := source), h]
  exact String.extract_of_valid front middle rest

lemma readForms_piece {label : Option String} {cs gaps : List Char} {v : Value}
    (hf : Form options cs v gaps) (hg : Gaps options gaps []) :
    readForms options label (String.ofList (cs ++ gaps)) = .ok [(0, v)] := by
  rw [readForms_eq_ok, forms_eq_ok_iff, String.toList_ofList]
  have hlead : Gaps options [] (cs ++ gaps) := .nil
  exact .cons hlead hf (.nil hg)

end Lisplet.Reader

namespace Lisplet.Program

open Reader

variable {options : Options} {label : Option String} {source : String} {p : Program}

lemma offset?_eq_some {i o : ℕ} (h : p.offset? i = some o) : ∃ v, p.entries[i]? = some (o, v) := by
  rw [offset?, List.getElem?_map] at h
  obtain ⟨⟨_, v⟩, hv, rfl⟩ := Option.map_eq_some_iff.1 h
  exact ⟨v, hv⟩

lemma entry_of_offset? {i o : ℕ} {v : Value} (ho : p.offset? i = some o)
    (hv : p.form? i = some v) : p.entries[i]? = some (o, v) := by
  obtain ⟨w, hw⟩ := offset?_eq_some ho
  rw [form?, forms, List.getElem?_map, hw] at hv
  obtain rfl : w = v := Option.some.inj hv
  exact hw

/-- The offsets of a program are increasing character boundaries. The text before the first of them
holds no form, and the text from each of them to the next holds exactly the form there. -/
theorem ofSource_slices (h : ofSource options label source = .ok p) :
    (∀ i, (p.offset? i).isSome ↔ i < p.forms.length) ∧
    (∀ i j o o', i < j → p.offset? i = some o → p.offset? j = some o' → o < o') ∧
    (∀ i o, p.offset? i = some o →
      o < source.utf8ByteSize ∧ (⟨o⟩ : String.Pos.Raw).IsValid source) ∧
    readForms options label (slice source 0 ((p.offset? 0).getD source.utf8ByteSize)) = .ok [] ∧
    ∀ i o v, p.offset? i = some o → p.form? i = some v →
      readForms options label
        (slice source o ((p.offset? (i + 1)).getD source.utf8ByteSize)) = .ok [(0, v)] := by
  obtain ⟨hread, -, -⟩ := ofSource_eq_ok.1 h
  obtain ⟨lead, rest, htext, hlead, hp⟩ := (forms_eq_ok_iff.1 (readForms_eq_ok.1 hread)).pieces
  rw [Nat.zero_add] at hp
  have hsize : source.utf8ByteSize = size lead + size rest := by
    rw [← size_toList, htext, size_append]
  have hpiece {i o : ℕ} {v : Value} (hi : p.entries[i]? = some (o, v)) :
      ∃ front cs gaps after, source.toList = front ++ (cs ++ gaps) ++ after ∧ o = size front ∧
        (p.offset? (i + 1)).getD source.utf8ByteSize = o + size (cs ++ gaps) ∧
        Form options cs v gaps ∧ Gaps options gaps [] := by
    obtain ⟨front, cs, gaps, after, rfl, rfl, hnext, hf, hg⟩ := hp.exists_piece hi
    refine ⟨lead ++ front, cs, gaps, after, by simp [htext], (size_append _ _).symm, ?_, hf, hg⟩
    rw [hsize]
    exact hnext
  refine ⟨fun i => ?_, fun i j o o' hij ho ho' => ?_, fun i o ho => ?_, ?_, fun i o v ho hv => ?_⟩
  · simp [offset?, forms]
  · obtain ⟨hi, rfl⟩ := List.getElem?_eq_some_iff.1 ho
    obtain ⟨hj, rfl⟩ := List.getElem?_eq_some_iff.1 ho'
    exact List.pairwise_iff_getElem.1 hp.pairwise_lt i j hi hj hij
  · obtain ⟨v, hv⟩ := offset?_eq_some ho
    obtain ⟨front, cs, gaps, after, hsource, rfl, -, hf, -⟩ := hpiece hv
    constructor
    · have hpos := size_pos hf.ne_nil
      rw [← size_toList, hsource]
      simp only [size_append]
      omega
    · rw [String.Pos.Raw.isValid_iff_exists_append]
      refine ⟨String.ofList front, String.ofList (cs ++ gaps ++ after), ?_, ?_⟩
      · rw [← String.ofList_append, ← List.append_assoc, ← hsource, String.ofList_toList]
      · simp [size]
  · have hnone : (p.offset? 0).getD source.utf8ByteSize = size lead := by
      rw [hsize]
      exact hp.head_offset
    have hslice : slice source (size []) (size [] + size lead) = String.ofList lead :=
      slice_eq htext
    rw [size_nil, Nat.zero_add] at hslice
    rw [hnone, hslice, readForms_eq_ok, forms_eq_ok_iff, String.toList_ofList]
    exact .nil hlead
  · obtain ⟨front, cs, gaps, after, hsource, rfl, hnext, hf, hg⟩ := hpiece (entry_of_offset? ho hv)
    rw [hnext, slice_eq hsource]
    exact readForms_piece hf hg

theorem ofSource_slices_adjacent :
    ∃ p, ofSource ⟨true⟩ none " ;é\n(a;b]\n)\"é\"'b ;c" = .ok p ∧
      p.entries = [(5, .ofList [.symbol "a"]), (12, .string "é"), (16, .quoted (.symbol "b"))] ∧
      readForms ⟨true⟩ none " ;é\n" = .ok [] ∧
      readForms ⟨true⟩ none "(a;b]\n)" = .ok [(0, .ofList [.symbol "a"])] ∧
      readForms ⟨true⟩ none "\"é\"" = .ok [(0, .string "é")] ∧
      readForms ⟨true⟩ none "'b ;c" = .ok [(0, .quoted (.symbol "b"))] := by
  have h : ofSource ⟨true⟩ none " ;é\n(a;b]\n)\"é\"'b ;c" =
      .ok ⟨" ;é\n(a;b]\n)\"é\"'b ;c", none,
        [(5, .ofList [.symbol "a"]), (12, .string "é"), (16, .quoted (.symbol "b"))]⟩ := rfl
  obtain ⟨-, -, -, hlead, hpiece⟩ := ofSource_slices h
  refine ⟨_, h, rfl, hlead, hpiece 0 5 _ rfl rfl, hpiece 1 12 _ rfl rfl, hpiece 2 16 _ rfl rfl⟩

end Lisplet.Program
