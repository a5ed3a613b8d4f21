import Lisplet.Library.Functions
import Lisplet.Proofs.Outcome
import Mathlib.Data.Set.List

/-! Calls through a signature. A parameter reads an argument or refuses it. A call hands over what
is read, all of it in order, or ends with the leftmost argument that is refused. -/

namespace Lisplet

variable {fault : Fault} {wanted got : Kind} {v : Value} {vs : List Value}

namespace Element

variable {element : Element} {x : element.Carrier} {xs : List element.Carrier}

def toValue : (element : Element) → element.Carrier → Value
  | .value, v => v
  | .number, n => .number n
  | .boolean, b => .boolean b
  | .string, s => .string s

lemma map_toValue_value : vs.map Element.value.toValue = vs :=
  List.map_id vs

def Refuses (element : Element) (vs : List Value) (wanted got : Kind) : Prop :=
  element.wanted? = some wanted ∧ ∃ before v after, vs = before ++ v :: after ∧
    (∀ u ∈ before, u.kind = wanted) ∧ v.kind = got ∧ got ≠ wanted

lemma project?_eq_some_iff : element.project? v = some x ↔ v = element.toValue x := by
  cases element <;> cases v <;> simp [project?, toValue]

lemma refusal?_eq_none_iff : element.refusal? v = none ↔ ∃ x, v = element.toValue x := by
  cases element <;> cases v <;> simp [refusal?, wanted?, toValue, Value.kind]

lemma refusal?_eq_some_iff : element.refusal? v = some fault ↔
    ∃ wanted, element.wanted? = some wanted ∧ v.kind ≠ wanted ∧ v.expected wanted = fault := by
  simp [refusal?, Option.bind_eq_some_iff]

lemma kind_of_refusal?_eq_none (hwanted : element.wanted? = some wanted) :
    element.refusal? v = none ↔ v.kind = wanted := by
  simp [refusal?, hwanted]

lemma convert_eq_ok_iff : element.convert v = .ok x ↔ v = element.toValue x := by
  cases element <;> cases v <;>
    simp [convert, toValue, Value.toInteger, Value.toBool, Value.toText]

lemma convert_eq_error_iff :
    element.convert v = .error fault ↔ element.refusal? v = some fault := by
  cases element <;> cases v <;>
    simp [convert, refusal?, wanted?, Value.kind, Value.toInteger, Value.toBool, Value.toText]

lemma check_eq_ok_iff : element.check vs = .ok () ↔ ∀ v ∈ vs, ∃ x, v = element.toValue x := by
  simp only [← refusal?_eq_none_iff, ← List.findSome?_eq_none_iff, check]
  cases vs.findSome? element.refusal? <;> simp

lemma check_eq_error_iff : element.check vs = .error fault ↔
    ∃ wanted got, element.Refuses vs wanted got ∧
      fault = .mismatch (.expected wanted got) none := by
  have hcheck : element.check vs = .error fault ↔ vs.findSome? element.refusal? = some fault := by
    rw [check]
    cases vs.findSome? element.refusal? <;> simp
  rw [hcheck, List.findSome?_eq_some_iff]
  constructor
  · rintro ⟨before, v, after, rfl, hv, hbefore⟩
    obtain ⟨wanted, hwanted, hne, rfl⟩ := refusal?_eq_some_iff.1 hv
    have hkinds : ∀ u ∈ before, u.kind = wanted :=
      fun u hu => (kind_of_refusal?_eq_none hwanted).1 (hbefore u hu)
    exact ⟨wanted, v.kind, ⟨hwanted, before, v, after, rfl, hkinds, rfl, hne⟩, rfl⟩
  · rintro ⟨wanted, _, ⟨hwanted, before, v, after, rfl, hkinds, rfl, hne⟩, rfl⟩
    refine ⟨before, v, after, rfl, refusal?_eq_some_iff.2 ⟨wanted, hwanted, hne, rfl⟩, ?_⟩
    exact fun u hu => (kind_of_refusal?_eq_none hwanted).2 (hkinds u hu)

lemma exists_of_check (h : element.check vs = .ok ()) :
    ∃ xs : List element.Carrier, vs = xs.map element.toValue := by
  have hrange : vs ∈ Set.range (List.map element.toValue) := by
    rw [Set.range_list_map]
    exact fun v hv => (check_eq_ok_iff.1 h v hv).imp fun _ => Eq.symm
  exact hrange.imp fun _ => Eq.symm

lemma project?_comp_toValue : element.project? ∘ element.toValue = some :=
  funext fun _ => project?_eq_some_iff.2 rfl

lemma convertAll_eq_ok_iff : element.convertAll vs = .ok xs ↔ vs = xs.map element.toValue := by
  have hread (xs : List element.Carrier) :
      (xs.map element.toValue).filterMap element.project? = xs := by
    rw [List.filterMap_map, project?_comp_toValue, List.filterMap_some]
  constructor
  · intro h
    obtain ⟨⟨⟩, hcheck, rfl⟩ := map_eq_ok h
    obtain ⟨ys, rfl⟩ := exists_of_check hcheck
    rw [hread]
  · rintro rfl
    have hcheck : element.check (xs.map element.toValue) = .ok () :=
      check_eq_ok_iff.2 fun v hv => (List.mem_map.1 hv).imp fun _ h => h.2.symm
    rw [convertAll, hcheck]
    exact congrArg Except.ok (hread xs)

lemma convertAll_eq_error_iff : element.convertAll vs = .error fault ↔
    ∃ wanted got, element.Refuses vs wanted got ∧
      fault = .mismatch (.expected wanted got) none := by
  rw [← check_eq_error_iff, convertAll]
  cases element.check vs <;> simp [Except.map]

end Element

namespace Param

variable {param : Param} {x : param.Carrier}

def Reads : (param : Param) → Value → param.Carrier → Prop
  | .single element, v, x => v = element.toValue x
  | .real, v, x => v = .real x ∨ ∃ n : Int64, v = .number n ∧ x = Float.ofInt n.toInt
  | .list element, v, xs => ∃ mark, v = .list mark (xs.map element.toValue)

inductive Refuses : Param → Value → Kind → Kind → Prop
  | single {element : Element} {v : Value} {wanted : Kind} : element.wanted? = some wanted →
      v.kind ≠ wanted → Refuses (.single element) v wanted v.kind
  | real {v : Value} : v.kind ≠ .number → v.kind ≠ .real → Refuses .real v .number v.kind
  | noList {element : Element} {v : Value} : v.kind ≠ .list → Refuses (.list element) v .list v.kind
  | item {element : Element} {mark : Option ℕ} {items : List Value} {wanted got : Kind} :
      element.Refuses items wanted got → Refuses (.list element) (.list mark items) wanted got

lemma convert_eq_ok_iff : param.convert v = .ok x ↔ param.Reads v x := by
  cases param with
  | single element => exact Element.convert_eq_ok_iff
  | real => cases v <;> simp [convert, Reads, Value.toReal, eq_comm]
  | list element =>
    cases v with
    | list mark items =>
      simp only [Reads, Value.list.injEq, exists_and_right, exists_eq', true_and]
      exact Element.convertAll_eq_ok_iff
    | _ => simp [convert, Reads, Value.toItems, Except.bind]

lemma convert_eq_error_iff : param.convert v = .error fault ↔
    ∃ wanted got, param.Refuses v wanted got ∧ fault = .mismatch (.expected wanted got) none := by
  cases param with
  | single element =>
    refine Element.convert_eq_error_iff.trans (Element.refusal?_eq_some_iff.trans ?_)
    constructor
    · rintro ⟨wanted, hwanted, hne, rfl⟩
      exact ⟨wanted, v.kind, .single hwanted hne, rfl⟩
    · rintro ⟨wanted, _, ⟨hwanted, hne⟩, rfl⟩
      exact ⟨wanted, hwanted, hne, rfl⟩
  | real =>
    constructor
    · intro h
      cases v with
      | number n => cases h
      | real x => cases h
      | _ =>
        cases h
        exact ⟨_, _, .real nofun nofun, rfl⟩
    · rintro ⟨_, _, hrefuses, rfl⟩
      cases hrefuses with
      | real hnumber hreal => cases v with
        | number n => exact absurd rfl hnumber
        | real x => exact absurd rfl hreal
        | _ => rfl
  | list element =>
    cases v with
    | list mark items =>
      refine Element.convertAll_eq_error_iff.trans (exists₂_congr fun wanted got => ?_)
      refine and_congr_left fun _ => ⟨.item, ?_⟩
      rintro (_ | _ | hlist | hitems)
      · exact absurd rfl hlist
      · exact hitems
    | _ =>
      constructor
      · rintro ⟨⟩
        exact ⟨_, _, .noList nofun, rfl⟩
      · rintro ⟨_, _, ⟨⟩, rfl⟩
        rfl

end Param

namespace Signature

variable {ρ α : Type} {params : List Param} {rest : Option Element} {f : Arrow ρ params rest}
  {args : List Value} {result : ρ}

def Takes (signature : Signature) (count : ℕ) : Prop :=
  match signature.rest with
  | none => count = signature.fixed.length
  | some _ => signature.fixed.length ≤ count

inductive Applied : (params : List Param) → (rest : Option Element) → Arrow ρ params rest →
    List Value → ρ → Prop
  | done (result : ρ) : Applied [] none result [] result
  | rest {element : Element} {f : Arrow ρ [] (some element)} {args : List Value}
      {xs : List element.Carrier} : args = xs.map element.toValue →
      Applied [] (some element) f args (f xs)
  | param {param : Param} {params : List Param} {rest : Option Element}
      {f : Arrow ρ (param :: params) rest} {arg : Value} {args : List Value} {x : param.Carrier}
      {result : ρ} : param.Reads arg x → Applied params rest (f x) args result →
      Applied (param :: params) rest f (arg :: args) result

inductive Refuses : List Param → Option Element → List Value → Kind → Kind → Prop
  | here {param : Param} {params : List Param} {rest : Option Element} {arg : Value}
      {args : List Value} {wanted got : Kind} : param.Refuses arg wanted got →
      Refuses (param :: params) rest (arg :: args) wanted got
  | further {param : Param} {params : List Param} {rest : Option Element} {arg : Value}
      {args : List Value} {x : param.Carrier} {wanted got : Kind} : param.Reads arg x →
      Refuses params rest args wanted got → Refuses (param :: params) rest (arg :: args) wanted got
  | rest {element : Element} {args : List Value} {wanted got : Kind} :
      element.Refuses args wanted got → Refuses [] (some element) args wanted got

inductive Answers (signature : Signature) (f : signature.Handler ρ) (args : List Value) :
    Except Fault ρ → Prop
  | count : ¬ signature.Takes args.length →
      Answers signature f args (.error (.arity signature.fixed.length args.length none))
  | refused {wanted got : Kind} : signature.Takes args.length →
      Refuses signature.fixed signature.rest args wanted got →
      Answers signature f args (.error (.mismatch (.expected wanted got) none))
  | applied {result : ρ} : signature.Takes args.length →
      Applied signature.fixed signature.rest f args result → Answers signature f args (.ok result)

lemma accepts_iff {signature : Signature} {count : ℕ} :
    signature.accepts count ↔ signature.Takes count := by
  obtain ⟨fixed, _ | element⟩ := signature <;> simp [accepts, Takes]

instance (signature : Signature) (count : ℕ) : Decidable (signature.Takes count) :=
  decidable_of_iff _ accepts_iff

lemma Applied.takes (h : Applied params rest f args result) : Takes ⟨params, rest⟩ args.length := by
  induction h with
  | done result => rfl
  | rest hxs => exact Nat.zero_le _
  | @param _ _ rest _ _ _ _ _ _ _ ih => cases rest <;> simpa [Takes] using ih

def Always (p : ρ → Prop) : (params : List Param) → (rest : Option Element) →
    Arrow ρ params rest → Prop
  | [], none, f => p f
  | [], some _, f => ∀ xs, p (f xs)
  | _ :: params, rest, f => ∀ x, Always p params rest (f x)

lemma Applied.of_always {p : ρ → Prop} (h : Applied params rest f args result)
    (hf : Always p params rest f) : p result := by
  induction h with
  | done result => exact hf
  | rest _ => exact hf _
  | param _ _ ih => exact ih (hf _)

lemma Applied.applyTo_eq (h : Applied params rest f args result) :
    applyTo params rest f args = some (.ok result) := by
  induction h with
  | done result => rfl
  | rest hxs =>
    rw [applyTo, Element.convertAll_eq_ok_iff.2 hxs]
    rfl
  | param hx _ ih =>
    rw [applyTo, Param.convert_eq_ok_iff.2 hx]
    exact ih

lemma Refuses.applyTo_eq (h : Refuses params rest args wanted got) :
    applyTo params rest f args = some (.error (.mismatch (.expected wanted got) none)) := by
  induction h with
  | here h =>
    rw [applyTo, Param.convert_eq_error_iff.2 ⟨_, _, h, rfl⟩]
  | further hx _ ih =>
    rw [applyTo, Param.convert_eq_ok_iff.2 hx]
    exact ih
  | rest h =>
    rw [applyTo, Element.convertAll_eq_error_iff.2 ⟨_, _, h, rfl⟩]
    rfl

lemma applied_or_refuses (h : Takes ⟨params, rest⟩ args.length) (f : Arrow ρ params rest) :
    (∃ result, Applied params rest f args result) ∨
      ∃ wanted got, Refuses params rest args wanted got := by
  induction params generalizing args with
  | nil =>
    cases rest with
    | none =>
      obtain rfl := List.eq_nil_of_length_eq_zero h
      exact .inl ⟨f, .done f⟩
    | some element =>
      cases hxs : element.convertAll args with
      | ok xs => exact .inl ⟨f xs, .rest (Element.convertAll_eq_ok_iff.1 hxs)⟩
      | error fault =>
        obtain ⟨wanted, got, hargs, -⟩ := Element.convertAll_eq_error_iff.1 hxs
        exact .inr ⟨wanted, got, .rest hargs⟩
  | cons param params ih =>
    cases args with
    | nil => cases rest <;> simp [Takes] at h
    | cons arg args =>
      have htakes : Takes ⟨params, rest⟩ args.length := by cases rest <;> simpa [Takes] using h
      cases hx : param.convert arg with
      | error fault =>
        obtain ⟨wanted, got, harg, -⟩ := Param.convert_eq_error_iff.1 hx
        exact .inr ⟨wanted, got, .here harg⟩
      | ok x =>
        have hreads : param.Reads arg x := Param.convert_eq_ok_iff.1 hx
        rcases ih htakes (f x) with ⟨result, happlied⟩ | ⟨wanted, got, hrefuses⟩
        · exact .inl ⟨result, .param hreads happlied⟩
        · exact .inr ⟨wanted, got, .further hreads hrefuses⟩

section

variable {signature : Signature} {f : signature.Handler ρ} {outcome : Except Fault ρ}

lemma Answers.call_eq (h : signature.Answers f args outcome) : signature.call f args = outcome := by
  cases h with
  | count htakes => rw [call, if_neg (accepts_iff.not.2 htakes), Option.getD_none]
  | refused htakes h =>
    rw [call, if_pos (accepts_iff.2 htakes), h.applyTo_eq, Option.getD_some]
  | applied htakes h =>
    rw [call, if_pos (accepts_iff.2 htakes), h.applyTo_eq, Option.getD_some]

lemma Answers.error {g : signature.Handler α} (h : signature.Answers f args (.error fault)) :
    signature.Answers g args (.error fault) := by
  cases h with
  | count htakes => exact .count htakes
  | refused htakes h => exact .refused htakes h

lemma exists_answers (f : signature.Handler ρ) (args : List Value) :
    ∃ outcome, signature.Answers f args outcome := by
  by_cases htakes : signature.Takes args.length
  · rcases applied_or_refuses htakes f with ⟨result, h⟩ | ⟨wanted, got, h⟩
    · exact ⟨_, .applied htakes h⟩
    · exact ⟨_, .refused htakes h⟩
  · exact ⟨_, .count htakes⟩

lemma answers_iff : signature.Answers f args outcome ↔ signature.call f args = outcome := by
  refine ⟨Answers.call_eq, ?_⟩
  rintro rfl
  obtain ⟨outcome, h⟩ := exists_answers f args
  rwa [h.call_eq]

lemma applied_of_call (h : signature.call f args = .ok result) :
    Applied signature.fixed signature.rest f args result := by
  cases answers_iff.2 h with
  | applied _ happlied => exact happlied

lemma run_of_applied {f : signature.Handler (Run α)} {run : Run α}
    (h : Applied signature.fixed signature.rest f args run) : signature.run f args = run := by
  have hcall : signature.call f args = .ok run := (Answers.applied h.takes h).call_eq
  rw [Signature.run, hcall]

/-- A call comes to what its arguments say: a fault that counts them, the fault of the leftmost one
that is refused, or what the function makes of all of them. In the first two cases nothing is done,
whatever function stands there. Items that have been checked can all be read. -/
theorem call_answers (signature : Signature) (args : List Value) :
    (∀ (f : signature.Handler ρ) outcome,
      signature.call f args = outcome ↔ signature.Answers f args outcome) ∧
    (∀ (f : signature.Handler (Run α)) outcome w, signature.Answers f args outcome →
      (∀ fault, outcome = .error fault →
        ∀ g : signature.Handler (Run α), signature.run g args w = some (.error fault, w)) ∧
      ∀ run, outcome = .ok run → signature.run f args w = run w) ∧
    ∀ (element : Element) (vs : List Value), element.check vs = .ok () →
      ∃ xs : List element.Carrier, vs.map element.project? = xs.map some ∧
        vs = xs.map element.toValue ∧ element.convertAll vs = .ok xs := by
  refine ⟨fun f outcome => answers_iff.symm, ?_, ?_⟩
  · intro f outcome w h
    constructor
    · rintro fault rfl g
      have hcall : signature.call g args = .error fault := h.error.call_eq
      rw [Signature.run, hcall]
      rfl
    · rintro run rfl
      rw [Signature.run, h.call_eq]
  · intro element vs hcheck
    obtain ⟨xs, rfl⟩ := Element.exists_of_check hcheck
    refine ⟨xs, ?_, rfl, Element.convertAll_eq_ok_iff.2 rfl⟩
    rw [List.map_map, Element.project?_comp_toValue]

def sample : Signature := ⟨[.single .number, .list .string], some .boolean⟩

def collected : sample.Handler (Run Value) := fun n texts flags =>
  pure (.ofList [.number n, .string (String.join texts), .boolean (flags.all id)])

theorem call_answers_sample :
    (∀ f : sample.Handler (Run Value), sample.run f [.number 1] .empty =
      some (.error (.arity 2 1 none), .empty)) ∧
    (∀ f : sample.Handler (Run Value), sample.run f
        [.number 1, .list none [.string "a", .number 2, .symbol "b"], .string "c"] .empty =
      some (.error (.mismatch (.expected .string .number) none), .empty)) ∧
    sample.run collected [.number 1, .list none [.string "a", .string "b"], .boolean true,
        .boolean false] .empty =
      some (.ok (.ofList [.number 1, .string "ab", .boolean false]), .empty) := by
  refine ⟨fun f => ?_, fun f => ?_, ?_⟩
  · have h : sample.Answers f [.number 1] (.error (.arity 2 1 none)) := .count (by decide)
    exact ((@call_answers (Run Value) Value sample _).2.1 f _ _ h).1 _ rfl f
  · have hitems : Element.string.Refuses [.string "a", .number 2, .symbol "b"] .string .number :=
      ⟨rfl, [.string "a"], .number 2, [.symbol "b"], rfl, by simp [Value.kind], rfl, nofun⟩
    have hrefuses : Refuses sample.fixed sample.rest
        [.number 1, .list none [.string "a", .number 2, .symbol "b"], .string "c"]
        .string .number := .further rfl (.here (.item hitems))
    have h : sample.Answers f _ _ := .refused (by decide) hrefuses
    exact ((@call_answers (Run Value) Value sample _).2.1 f _ _ h).1 _ rfl f
  · have happlied : Applied sample.fixed sample.rest collected
        [.number 1, .list none [.string "a", .string "b"], .boolean true, .boolean false]
        (collected 1 ["a", "b"] [true, false]) :=
      .param rfl (.param ⟨none, rfl⟩ (.rest rfl))
    have h : sample.Answers collected _ _ := .applied (by decide) happlied
    exact ((@call_answers (Run Value) Value sample _).2.1 _ _ _ h).2 _ rfl

end

end Signature

end Lisplet
