import Lisplet.Proofs.Reader.Descent.Forms
import Lisplet.Proofs.Reader.Descent.Limits

/-! Reading by recursive descent ends on every text and only goes forward in it. -/

namespace Lisplet.Reader.Descent

variable {α : Type} {options : Options} {limit : ℕ} {text : List Char} {left : List Char → Prop}

structure Remains (text rest : List Char) : Prop where
  suffix : rest <:+ text
  boundary : (minus? (extent text) (extent rest)).bind (dropBytes? text) = some rest

def Shorter (text rest : List Char) : Prop :=
  extent rest < extent text

inductive Leaves (left : List Char → Prop) (text : List Char) : Reading (α × List Char) → Prop
  | value {v : α} {rest : List Char} : Remains text rest → left rest →
      Leaves left text (pure (v, rest))
  | obstacle {o : Obstacle} : Remains text o.rest → Leaves left text (throw o)

/-- Reading with a limit comes to one result, whatever the limit is above the length of the text. -/
def Ends (left : List Char → Prop) (text : List Char) (reading : ℕ → Reading (α × List Char)) :
    Prop :=
  ∃ r, Leaves left text r ∧ ∀ limit, text.length < limit → reading limit = r

lemma remains_append (part rest : List Char) : Remains (part ++ rest) rest := by
  refine ⟨List.suffix_append part rest, ?_⟩
  rw [extent_eq, extent_eq, size_append, minus?_add]
  exact dropBytes?_append part rest

lemma remains_self (text : List Char) : Remains text text :=
  remains_append [] text

lemma Leaves.exists_eq_some {r : Reading (α × List Char)} (h : Leaves left text r) :
    ∃ outcome, r = some outcome := by
  cases h with
  | value _ _ => exact ⟨_, rfl⟩
  | obstacle _ => exact ⟨_, rfl⟩

lemma Leaves.ends {reading : ℕ → Reading (α × List Char)}
    (h : Leaves left text (reading (text.length + 1)))
    (hmore : ∀ limit more, limit ≤ more → Refines (reading limit) (reading more)) :
    Ends left text reading := by
  obtain ⟨outcome, ho⟩ := h.exists_eq_some
  exact ⟨_, h, fun limit hl => (hmore _ limit hl outcome ho).trans ho.symm⟩

lemma Yields.leaves {good : List Char → α → List Char → Prop}
    {bad : List Char → SyntaxFault.Kind → List Char → Prop} {r : Reading (α × List Char)}
    (h : Yields good bad text r)
    (hleft : ∀ part v rest, text = part ++ rest → good part v rest → left rest) :
    Leaves left text r := by
  cases h with
  | value _ he hr hgood =>
    rw [hr]
    exact .value (he ▸ remains_append ..) (hleft _ _ _ he hgood)
  | obstacle _ he hr _ =>
    rw [hr]
    exact .obstacle (he ▸ remains_append ..)

lemma leaves_form {bad : List Char → SyntaxFault.Kind → List Char → Prop}
    {r : Reading (Value × List Char)} (h : Yields (Form options) bad text r) :
    Leaves (Shorter text) text r := by
  refine h.leaves fun part v rest he hf => ?_
  have := size_pos hf.ne_nil
  rw [Shorter, he, extent_eq, extent_eq, size_append]
  omega

lemma leaves_atmosphere (h : text.length < limit) :
    Leaves (fun _ => True) text (atmosphere limit options text) := by
  obtain ⟨gaps, rest, rfl, _, _, ha⟩ := exists_atmosphere options h
  rw [ha]
  exact .value (remains_append gaps rest) trivial

lemma leaves_atom : Leaves (Shorter text) text (atom text) := by
  match text with
  | [] => exact .obstacle (remains_self [])
  | c :: cs =>
    cases hc : isTokenChar c with
    | true => exact leaves_form (atom_token defaultOptions hc cs)
    | false =>
      rw [atom_other (by simpa using hc)]
      exact .obstacle (remains_self _)

lemma leaves_one {f : Char → Option α} {next : α × List Char → Reading (Value × List Char)}
    (h : ∀ c a rest, text = c :: rest → f c = some a →
      Leaves (Shorter text) text (one f text >>= next)) :
    Leaves (Shorter text) text (one f text >>= next) := by
  rcases one_cases f text with ⟨c, a, rest, he, ha, _⟩ | ho
  · exact h c a rest he ha
  · rw [ho]
    exact .obstacle (remains_self text)

lemma leaves_only {d : Char} {next : Char × List Char → Reading (Value × List Char)}
    (h : ∀ rest, text = d :: rest → Leaves (Shorter text) text (only d text >>= next)) :
    Leaves (Shorter text) text (only d text >>= next) := by
  refine leaves_one fun c _ rest he hc => ?_
  have hd : c = d := by simpa using (Option.guard_eq_some_iff.1 hc).2
  exact h rest (hd ▸ he)

lemma leaves_string : Leaves (Shorter text) text (string text) := by
  refine leaves_only fun rest he => ?_
  subst he
  exact leaves_form (string_yields defaultOptions rest)

lemma leaves_list (h : text.length < limit) :
    Leaves (Shorter text) text (list limit options (form limit options) text) := by
  refine leaves_one fun c b rest he hb => ?_
  obtain rfl := ofOpener?_eq_some hb
  subst he
  exact leaves_form (list_yields (readsBelow_nested le_rfl) le_rfl (Nat.lt_of_succ_lt h))

lemma leaves_quote (h : text.length < limit) :
    Leaves (Shorter text) text (quote limit options (form limit options) text) := by
  refine leaves_only fun rest he => ?_
  subst he
  exact leaves_form (quote_yields (readsBelow_nested le_rfl) le_rfl (Nat.lt_of_succ_lt h))

lemma leaves_topLevel (h : text.length < limit) :
    Leaves (· = []) text (topLevel limit options text limit [] text) :=
  (topLevel_initial options h).leaves fun _ _ _ _ hgood => hgood.1

/-- Every construct ends on every text. What it leaves is a suffix of the text, and a shorter one
behind all of them but gaps. No length is negative and no text is cut inside a character, also not
for the offsets of forms and faults, which are those of reading one character at a time. -/
theorem reading_ends (options : Options) (text : List Char) :
    Ends (fun _ => True) text (fun limit => atmosphere limit options text) ∧
      Ends (Shorter text) text (fun _ => atom text) ∧
      Ends (Shorter text) text (fun _ => string text) ∧
      Ends (Shorter text) text (fun limit => list limit options (form limit options) text) ∧
      Ends (Shorter text) text (fun limit => quote limit options (form limit options) text) ∧
      Ends (Shorter text) text (fun limit => form limit options text) ∧
      Ends (· = []) text (fun limit => topLevel limit options text limit [] text) ∧
      ∀ label limit, text.length < limit →
        readForms limit options label (String.ofList text) =
          some (Reader.readForms options label (String.ofList text)) := by
  have hlimit := Nat.lt_succ_self text.length
  refine ⟨?_, ?_, ?_, ?_, ?_, ?_, ?_, fun label limit h => readForms_eq ?_⟩
  · exact (leaves_atmosphere hlimit).ends fun _ _ h => atmosphere_refines h text
  · exact ⟨_, leaves_atom, fun _ _ => rfl⟩
  · exact ⟨_, leaves_string, fun _ _ => rfl⟩
  · exact (leaves_list hlimit).ends fun _ _ h => list_refines h (form_refines h) text
  · exact (leaves_quote hlimit).ends fun _ _ h => quote_refines h (form_refines h) text
  · exact (leaves_form (form_yields options hlimit)).ends fun _ _ h => form_refines h text
  · exact (leaves_topLevel hlimit).ends fun _ _ h => topLevel_refines h h text [] text
  · rwa [String.toList_ofList]

theorem reading_ends_mismatched :
    "(a 'b]".toList.length < 7 ∧
      readForms 7 defaultOptions none "(a 'b]" =
        some (.error ⟨.mismatched, "(a 'b]", 5, none⟩) := by
  have hlength : "(a 'b]".toList.length < 7 := by decide
  have hread : Reader.readForms defaultOptions none "(a 'b]" =
      .error ⟨.mismatched, "(a 'b]", 5, none⟩ := rfl
  have h := (reading_ends defaultOptions "(a 'b]".toList).2.2.2.2.2.2.2 none 7 hlength
  rw [String.ofList_toList, hread] at h
  exact ⟨hlength, h⟩

end Lisplet.Reader.Descent
