import Lisplet.Proofs.Eval.Context
import Lisplet.Proofs.Program.Execution
import Lisplet.Proofs.Store.Lookup

/-! Counters made by one closure. Each of them keeps its number in a frame of its own, and calls of
one of them leave the others as they are. -/

namespace Lisplet.Counters

def addition : Value :=
  .ofList [.symbol "+", .symbol "n", .number 1]

def increment : Value :=
  .ofList [.symbol "setf!", .symbol "n", addition]

def counter : Value :=
  .ofList [.symbol "lambda", .nil, increment]

def maker : Value :=
  .ofList [.symbol "define", .symbol "make", .ofList [.symbol "lambda", .ofList [.symbol "n"], counter]]

def making (name : String) (start : Int64) : Value :=
  .ofList [.symbol "define", .symbol name, .ofList [.symbol "make", .number start]]

def call (name : String) : Value :=
  .ofList [.symbol name]

def result (x : Int64) : Except Fault Value :=
  match Integer.fit? (x.toInt + 1) with
  | some y => .ok (.number y)
  | none => .error (.failure (.integerOverflow .addition) (some addition))

def successor (x : Int64) : Int64 :=
  (Integer.fit? (x.toInt + 1)).getD x

def reserved : List String :=
  ["define", "lambda", "setf!", "+", "make", "n"]

variable {host : Host} {fuel : ℕ} {c : Scope} {w : World} {x : Int64}

lemma eval_addition (hadd : w.store.get? c "+" = some (.operation (.builtin (.function .add))))
    (hn : w.store.get? c "n" = some (.number x)) :
    eval host (fuel + 2) addition c w = some (result x, w) := by
  have hargs : Eval.args (perform host (fuel + 1)) [.symbol "n", .number 1] c w =
      some (.ok [.number x, .number 1], w) := args_cons (eval_symbol hn) (args_cons rfl rfl)
  rw [addition, result]
  cases hfit : Integer.fit? (x.toInt + 1) with
  | some y => exact eval_sum hadd hargs hfit
  | none => exact eval_sum_overflow hadd hargs hfit

lemma eval_increment {store : Store}
    (hsetf : w.store.get? c "setf!" = some (.operation (.core .assign)))
    (hadd : w.store.get? c "+" = some (.operation (.builtin (.function .add))))
    (hn : w.store.get? c "n" = some (.number x))
    (hstore : w.store.assign? c "n" (.number (successor x)) = some store) :
    ∃ w', eval host (fuel + 3) increment c w = some (result x, w') ∧
      (w'.store = store ∨ successor x = x ∧ w' = w) := by
  have haddition : eval host (fuel + 2) addition c w = some (result x, w) := eval_addition hadd hn
  cases hfit : Integer.fit? (x.toInt + 1) with
  | some y =>
    rw [successor, hfit, Option.getD_some] at hstore
    rw [result, hfit] at haddition ⊢
    exact ⟨_, eval_assign hsetf haddition hstore, .inl rfl⟩
  | none =>
    rw [result, hfit] at haddition ⊢
    exact ⟨w, eval_assign_error hsetf haddition, .inr ⟨by rw [successor, hfit, Option.getD_none], rfl⟩⟩

structure Holds (names : List String) (place : String → ℕ) (value : String → Int64)
    (store : Store) : Prop where
  core : ∀ f : CoreForm, f ≠ .quote → (store.frame 0).get? f.name = some (.operation (.core f))
  add : (store.frame 0).get? "+" = some (.operation (.builtin (.function .add)))
  make : ∃ m, (store.frame 0).get? "make" = some (.function m ["n"] [counter] ⟨0, []⟩)
  unbound : (store.frame 0).get? "n" = none
  closure : ∀ name ∈ names,
    ∃ m, (store.frame 0).get? name = some (.function m [] [increment] ⟨place name, [0]⟩)
  inside : ∀ name ∈ names, 0 < place name
  number : ∀ name ∈ names, store.frame (place name) = [("n", .number (value name))]
  apart : ∀ a ∈ names, ∀ b ∈ names, place a = place b → a = b

namespace Holds

variable {names : List String} {place : String → ℕ} {value : String → Int64} {store store' : Store}
  {name : String}

lemma frame_eq (h : Holds names place value store) (h0 : store'.frame 0 = store.frame 0)
    (hplaces : ∀ name ∈ names, store'.frame (place name) = store.frame (place name)) :
    Holds names place value store' where
  core := h0 ▸ h.core
  add := h0 ▸ h.add
  make := h0 ▸ h.make
  unbound := h0 ▸ h.unbound
  closure := h0 ▸ h.closure
  inside := h.inside
  number name hname := (hplaces name hname).trans (h.number name hname)
  apart := h.apart

lemma pos_size (h : Holds names place value store) : 0 < store.frames.size :=
  Store.lt_of_contains (Option.isSome_of_eq_some h.add)

lemma contains (h : Holds names place value store) (hname : name ∈ names) :
    (store.frame (place name)).contains "n" := by
  rw [h.number name hname]
  rfl

lemma get?_number (h : Holds names place value store) (hname : name ∈ names) {outer : List ℕ} :
    store.get? ⟨place name, outer⟩ "n" = some (.number (value name)) := by
  rw [Store.get?_here (h.contains hname), h.number name hname]
  rfl

lemma lt_size (h : Holds names place value store) (hname : name ∈ names) :
    place name < store.frames.size :=
  Store.lt_of_contains (h.contains hname)

lemma extend (h : Holds names place value store) (outer : Option Scope) (bindings : Bindings) :
    Holds names place value (store.extend outer bindings).2 := by
  refine h.frame_eq ?_ fun name hname => ?_
  · exact Store.frame_extend_of_ne h.pos_size.ne
  · exact Store.frame_extend_of_ne (h.lt_size hname).ne

lemma assign (h : Holds names place value store) (hname : name ∈ names) (x : Int64) :
    Holds names place (Function.update value name x)
      (store.bind (place name) "n" (.number x)) := by
  have h0 : (store.bind (place name) "n" (.number x)).frame 0 = store.frame 0 :=
    Store.frame_bind_of_ne (h.inside name hname).ne
  refine ⟨h0 ▸ h.core, h0 ▸ h.add, h0 ▸ h.make, h0 ▸ h.unbound, h0 ▸ h.closure, h.inside, ?_,
    h.apart⟩
  intro other hother
  by_cases heq : other = name
  · subst heq
    rw [Store.frame_bind_self (h.lt_size hname), h.number other hname, Function.update_self]
    rfl
  · have hplace : place other ≠ place name := fun hp => heq (h.apart other hother name hname hp)
    rw [Store.frame_bind_of_ne hplace, h.number other hother, Function.update_of_ne heq]

lemma define {k m : ℕ} (h : Holds names place value store) (hfree : name ∉ reserved)
    (hnew : name ∉ names) (hk : 0 < k) (hframe : store.frame k = [("n", .number (value name))])
    (hplaces : ∀ other ∈ names, place other ≠ k) :
    Holds (name :: names) (Function.update place name k) value
      (store.bind 0 name (.function m [] [increment] ⟨k, [0]⟩)) := by
  have hget (other : String) :
      ((store.bind 0 name (.function m [] [increment] ⟨k, [0]⟩)).frame 0).get? other =
        if other = name then some (.function m [] [increment] ⟨k, [0]⟩)
        else (store.frame 0).get? other := by
    rw [Store.frame_bind_self h.pos_size, Bindings.get?_insert]
  have hold {other : String} (hother : other ∈ reserved) :
      ((store.bind 0 name (.function m [] [increment] ⟨k, [0]⟩)).frame 0).get? other =
        (store.frame 0).get? other := by
    rw [hget, if_neg]
    rintro rfl
    exact hfree hother
  have hne {other : String} (hother : other ∈ names) : other ≠ name := by
    rintro rfl
    exact hnew hother
  have hplace {other : String} (hother : other ∈ names) :
      Function.update place name k other = place other :=
    Function.update_of_ne (hne hother) ..
  constructor
  case core =>
    intro f hf
    have hname : f.name ∈ reserved := by cases f <;> simp [reserved, CoreForm.name] at hf ⊢
    rw [hold hname, h.core f hf]
  case add => rw [hold (by simp [reserved]), h.add]
  case make =>
    rw [hold (by simp [reserved])]
    exact h.make
  case unbound => rw [hold (by simp [reserved]), h.unbound]
  case closure =>
    intro other hother
    rw [hget]
    rcases List.mem_cons.1 hother with rfl | hother
    · exact ⟨m, by rw [if_pos rfl, Function.update_self]⟩
    · rw [if_neg (hne hother), hplace hother]
      exact h.closure other hother
  case inside =>
    refine List.forall_mem_cons.2 ⟨?_, fun other hother => ?_⟩
    · rwa [Function.update_self]
    · rw [hplace hother]
      exact h.inside other hother
  case number =>
    refine List.forall_mem_cons.2 ⟨?_, fun other hother => ?_⟩
    · rw [Function.update_self, Store.frame_bind_of_ne hk.ne', hframe]
    · rw [hplace hother, Store.frame_bind_of_ne (h.inside other hother).ne', h.number other hother]
  case apart =>
    intro a ha b hb hab
    rw [List.mem_cons] at ha hb
    rcases ha with rfl | ha <;> rcases hb with rfl | hb
    · rfl
    · rw [Function.update_self, hplace hb] at hab
      exact absurd hab.symm (hplaces b hb)
    · rw [Function.update_self, hplace ha] at hab
      exact absurd hab (hplaces a ha)
    · rw [hplace ha, hplace hb] at hab
      exact h.apart a ha b hb hab

end Holds

/-! Making and calling a counter. -/

variable {names : List String} {place : String → ℕ} {value : String → Int64} {store : Store}
  {name : String} {k : ℕ}

lemma Holds.eval_body (host : Host) (fuel : ℕ) (h : Holds names place value w.store)
    (hname : name ∈ names) (hk : w.store.frame k = []) :
    ∃ w', eval host (fuel + 3) increment ⟨k, [place name, 0]⟩ w = some (result (value name), w') ∧
      Holds names place (Function.update value name (successor (value name))) w'.store := by
  have hempty (other : String) : (w.store.frame k).get? other = none := by
    rw [hk]
    rfl
  have hget {other : String} (hother : other ≠ "n") :
      w.store.get? ⟨k, [place name, 0]⟩ other = (w.store.frame 0).get? other := by
    have hplace : (w.store.frame (place name)).get? other = none := by
      rw [h.number name hname, Bindings.get?_cons, if_neg hother]
      rfl
    rw [Store.get?_inside (hempty other), Store.get?_inside hplace, Store.get?_single]
  have hsetf := (hget (by decide)).trans (h.core .assign (by decide))
  have hadd := (hget (by decide)).trans h.add
  have hn : w.store.get? ⟨k, [place name, 0]⟩ "n" = some (.number (value name)) := by
    rw [Store.get?_inside (hempty "n"), h.get?_number hname]
  have hholder : w.store.holder? ⟨k, [place name, 0]⟩ "n" = some (place name) := by
    rw [Store.holder?_outwards (Bindings.not_contains_iff.2 (hempty "n")) rfl,
      Store.holder?_here (h.contains hname)]
  have hassign : w.store.assign? ⟨k, [place name, 0]⟩ "n" (.number (successor (value name))) =
      some (w.store.bind (place name) "n" (.number (successor (value name)))) :=
    Store.assign?_eq_some.2 ⟨_, hholder, rfl⟩
  obtain ⟨w', hrun, hstore⟩ := eval_increment hsetf hadd hn hassign
  refine ⟨w', hrun, ?_⟩
  rcases hstore with hstore | ⟨hsame, rfl⟩
  · rw [hstore]
    exact h.assign hname _
  · rw [hsame, Function.update_eq_self]
    exact h

theorem Holds.eval_call (host : Host) (fuel : ℕ) (h : Holds names place value w.store)
    (hname : name ∈ names) :
    ∃ w', eval host (fuel + 4) (call name) ⟨0, []⟩ w = some (result (value name), w') ∧
      Holds names place (Function.update value name (successor (value name))) w'.store := by
  obtain ⟨m, hclosure⟩ := h.closure name hname
  have hargs : Eval.args (perform host (fuel + 3)) [] ⟨0, []⟩ w = some (.ok [], w) := rfl
  have hinner : Holds names place value
      (w.store.extend (some ⟨place name, [0]⟩) (Bindings.ofList [])).2 := h.extend _ _
  have hempty : (w.store.extend (some ⟨place name, [0]⟩) (Bindings.ofList [])).2.frame
      w.store.frames.size = [] := Store.frame_extend_self
  obtain ⟨w', hrun, hholds⟩ := Holds.eval_body host fuel
    (w := w.stored (w.store.extend (some ⟨place name, [0]⟩) (Bindings.ofList [])).2) hinner hname
    hempty
  refine ⟨w', ?_, hholds⟩
  exact (Lisplet.eval_body (Store.get?_single.trans hclosure) hargs rfl).trans hrun

lemma Holds.subset {names' : List String} (h : Holds names place value store)
    (hsub : ∀ name ∈ names', name ∈ names) : Holds names' place value store where
  core := h.core
  add := h.add
  make := h.make
  unbound := h.unbound
  closure name hname := h.closure name (hsub name hname)
  inside name hname := h.inside name (hsub name hname)
  number name hname := h.number name (hsub name hname)
  apart a ha b hb := h.apart a (hsub a ha) b (hsub b hb)

lemma Holds.eval_counter (host : Host) (fuel : ℕ) (h : Holds names place value w.store)
    (hk : w.store.frame k = [("n", .number x)]) :
    eval host (fuel + 2) counter ⟨k, [0]⟩ w =
      some (.ok (.function w.store.marks [] [increment] ⟨k, [0]⟩), w.marked) := by
  have hlambda : w.store.get? ⟨k, [0]⟩ "lambda" = some (.operation (.core .lambda)) := by
    rw [Store.get?_inside (by rw [hk]; rfl), Store.get?_single]
    exact h.core .lambda (by decide)
  exact eval_lambda hlambda rfl

lemma Holds.eval_making (host : Host) (fuel : ℕ) (h : Holds names place value w.store)
    (hfree : name ∉ reserved) (hnew : name ∉ names) :
    ∃ v w', eval host (fuel + 4) (making name (value name)) ⟨0, []⟩ w = some (.ok v, w') ∧
      Holds (name :: names) (Function.update place name w.store.frames.size) value w'.store := by
  obtain ⟨m, hmake⟩ := h.make
  have hargs : Eval.args (perform host (fuel + 2)) [.number (value name)] ⟨0, []⟩ w =
      some (.ok [.number (value name)], w) := args_cons rfl rfl
  have hinner : Holds names place value
      (w.store.extend (some ⟨0, []⟩) [("n", .number (value name))]).2 := h.extend _ _
  have hframe : (w.store.extend (some ⟨0, []⟩) [("n", .number (value name))]).2.frame
      w.store.frames.size = [("n", .number (value name))] := Store.frame_extend_self
  have hcounter := Holds.eval_counter host fuel
    (w := w.stored (w.store.extend (some ⟨0, []⟩) [("n", .number (value name))]).2) hinner hframe
  have hmade : eval host (fuel + 3) (.ofList [.symbol "make", .number (value name)]) ⟨0, []⟩ w =
      some (.ok (.function w.store.marks [] [increment] ⟨w.store.frames.size, [0]⟩),
        (w.stored (w.store.extend (some ⟨0, []⟩) [("n", .number (value name))]).2).marked) :=
    (Lisplet.eval_body (Store.get?_single.trans hmake) hargs rfl).trans hcounter
  have hdefine := Store.get?_single.trans (h.core .define (by decide))
  refine ⟨_, _, eval_define hdefine hmade, ?_⟩
  have hholds := hinner.define (m := w.store.marks) hfree hnew h.pos_size hframe
    fun other hother => (h.lt_size hother).ne
  exact hholds.frame_eq rfl fun _ _ => rfl

/-! Setting up. -/

def setUp (names : List String) (start : String → Int64) : List Value :=
  maker :: names.map fun name => making name (start name)

lemma holds_maker (host : Host) (fuel : ℕ) (place : String → ℕ) (value : String → Int64)
    (hw : w.store = (World.start .global).2.store) :
    ∃ v w', eval host (fuel + 4) maker ⟨0, []⟩ w = some (.ok v, w') ∧
      Holds [] place value w'.store := by
  have hframe : w.store.frame 0 = Bindings.global := by
    rw [hw]
    rfl
  have hlambda : w.store.get? ⟨0, []⟩ "lambda" = some (.operation (.core .lambda)) := by
    rw [Store.get?_single, hframe]
    exact Bindings.get?_global_core .lambda
  have hdefine : w.store.get? ⟨0, []⟩ "define" = some (.operation (.core .define)) := by
    rw [Store.get?_single, hframe]
    exact Bindings.get?_global_core .define
  have hget (f : Value) (other : String) : ((w.store.bind 0 "make" f).frame 0).get? other =
      if other = "make" then some f else Bindings.global.get? other := by
    rw [Store.frame_bind_self (by rw [hw]; exact Nat.one_pos), Bindings.get?_insert, hframe]
  refine ⟨_, _, eval_define hdefine (eval_lambda hlambda rfl), ?_⟩
  constructor
  case core =>
    intro f hf
    have hname : f.name ≠ "make" := by cases f <;> decide
    exact (hget _ _).trans ((if_neg hname).trans (Bindings.get?_global_core f))
  case add => exact (hget _ _).trans (Bindings.get?_global (.function .add))
  case make => exact ⟨_, hget _ _⟩
  case unbound => exact hget _ _
  all_goals exact fun _ hname => absurd hname List.not_mem_nil

lemma Holds.execute (host : Host) (fuel index : ℕ) (last : Value)
    (h : Holds names place value w.store) {rest : List String} (hnodup : rest.Nodup)
    (hfree : ∀ name ∈ rest, name ∉ reserved) (hnew : ∀ name ∈ rest, name ∉ names) :
    ∃ v w' place', Program.executeFrom host (fuel + 4) ⟨0, []⟩ index last
        (rest.map fun name => making name (value name)) w = some (.ok v, w') ∧
      Holds (rest.reverse ++ names) place' value w'.store := by
  induction rest generalizing index last names place w with
  | nil => exact ⟨last, w, place, rfl, h⟩
  | cons name rest ih =>
    obtain ⟨hname, hnodup⟩ := List.nodup_cons.1 hnodup
    obtain ⟨hfirst, hfree⟩ := List.forall_mem_cons.1 hfree
    obtain ⟨hfresh, hnew⟩ := List.forall_mem_cons.1 hnew
    obtain ⟨v, w₁, hmaking, h₁⟩ := Holds.eval_making host fuel
      (w := w.logged (.executing index (making name (value name)))) h hfirst hfresh
    have hnew₁ : ∀ other ∈ rest, other ∉ name :: names := by
      intro other hother hmem
      rcases List.mem_cons.1 hmem with rfl | hmem
      · exact hname hother
      · exact hnew other hother hmem
    obtain ⟨u, w', place', hrest, h'⟩ := ih (index + 1) v h₁ hnodup hfree hnew₁
    refine ⟨u, w', place', ?_, ?_⟩
    · rw [List.map_cons, Program.executeFrom_cons hmaking, hrest]
    · rwa [List.reverse_cons, List.append_assoc]

/-! Calls. -/

def counted (start : Int64) (j : ℕ) : Except Fault Value :=
  if start.toInt + j < 2 ^ 63 then .ok (.number (Int64.ofInt (start.toInt + j)))
  else .error (.failure (.integerOverflow .addition) (some addition))

def standing (start : Int64) (j : ℕ) : Int64 :=
  Int64.ofInt (min (start.toInt + j) (2 ^ 63 - 1))

lemma toInt_standing (start : Int64) (j : ℕ) :
    (standing start j).toInt = min (start.toInt + j) (2 ^ 63 - 1) := by
  have hle := Int64.le_toInt start
  rw [standing, Int64.toInt_ofInt_of_le]
  · omega
  · omega

lemma standing_zero (start : Int64) : standing start 0 = start := by
  have hlt := Int64.toInt_lt start
  rw [← Int64.toInt_inj, toInt_standing]
  omega

lemma fit?_standing (start : Int64) (j : ℕ) : Integer.fit? ((standing start j).toInt + 1) =
    if start.toInt + (j + 1 : ℕ) < 2 ^ 63 then some (standing start (j + 1)) else none := by
  have hle := Int64.le_toInt start
  split
  · next h =>
    rw [Integer.fit?_eq_some_iff, toInt_standing, toInt_standing]
    omega
  · next h =>
    rw [Integer.fit?, toInt_standing, if_neg]
    omega

lemma result_standing (start : Int64) (j : ℕ) :
    result (standing start j) = counted start (j + 1) := by
  rw [result, fit?_standing, counted]
  by_cases h : start.toInt + (j + 1 : ℕ) < 2 ^ 63
  · have hmin : min (start.toInt + (j + 1 : ℕ)) (2 ^ 63 - 1) = start.toInt + (j + 1 : ℕ) := by omega
    rw [if_pos h, if_pos h, standing, hmin]
  · rw [if_neg h, if_neg h]

lemma successor_standing (start : Int64) (j : ℕ) :
    successor (standing start j) = standing start (j + 1) := by
  rw [successor, fit?_standing]
  split
  · rfl
  · rw [Option.getD_none, ← Int64.toInt_inj, toInt_standing, toInt_standing]
    omega

def callAll (host : Host) (fuel : ℕ) (calls : List String) : Run (List (Except Fault Value)) :=
  calls.mapM fun name => (eval host fuel (call name) (World.start .global).1).attempt

lemma count_update (count : String → ℕ) (name other : String) (calls : List String) :
    Function.update count name (count name + 1) other + calls.count other =
      count other + (name :: calls).count other := by
  by_cases h : other = name
  · subst h
    rw [Function.update_self, List.count_cons_self]
    omega
  · rw [Function.update_of_ne h, List.count_cons_of_ne (Ne.symm h)]

lemma Holds.callAll (host : Host) (fuel : ℕ) (start : String → Int64) (count : String → ℕ)
    (h : Holds names place (fun name => standing (start name) (count name)) w.store)
    {calls : List String} (hcalls : ∀ name ∈ calls, name ∈ names) :
    ∃ results w', callAll host (fuel + 4) calls w = some (.ok results, w') ∧
      results.length = calls.length ∧
      (∀ before name after, calls = before ++ name :: after →
        results[before.length]? =
          some (counted (start name) (count name + before.count name + 1))) ∧
      Holds names place (fun name => standing (start name) (count name + calls.count name))
        w'.store := by
  induction calls generalizing count w with
  | nil =>
    refine ⟨[], w, rfl, rfl, ?_, h⟩
    intro before name after heq
    exact absurd heq.symm (List.append_ne_nil_of_right_ne_nil _ (List.cons_ne_nil _ _))
  | cons name calls ih =>
    obtain ⟨hname, hcalls⟩ := List.forall_mem_cons.1 hcalls
    obtain ⟨w₁, hrun, h₁⟩ := h.eval_call host fuel hname
    have hvalue : Function.update (fun name => standing (start name) (count name)) name
        (successor (standing (start name) (count name))) = fun other =>
          standing (start other) (Function.update count name (count name + 1) other) := by
      funext other
      by_cases heq : other = name
      · subst heq
        rw [Function.update_self, Function.update_self, successor_standing]
      · rw [Function.update_of_ne heq, Function.update_of_ne heq]
    rw [hvalue] at h₁
    obtain ⟨results, w', hresults, hlength, hcounted, h'⟩ := ih _ h₁ hcalls
    have hfirst : (eval host (fuel + 4) (call name) (World.start .global).1).attempt w =
        some (.ok (counted (start name) (count name + 1)), w₁) := by
      change (eval host (fuel + 4) (call name) ⟨0, []⟩ w).map _ = _
      rw [hrun, ← result_standing]
      rfl
    refine ⟨counted (start name) (count name + 1) :: results, w', ?_, ?_, ?_, ?_⟩
    · rw [Counters.callAll] at hresults ⊢
      rw [List.mapM_cons]
      simp only [Run.bind_apply, hfirst, hresults, Option.bind_some]
      rfl
    · rw [List.length_cons, List.length_cons, hlength]
    · intro before other after heq
      cases before with
      | nil =>
        obtain ⟨rfl, -⟩ := List.cons.inj heq
        rfl
      | cons _ before =>
        obtain ⟨rfl, hrest⟩ := List.cons.inj heq
        rw [List.length_cons, List.getElem?_cons_succ, hcounted before other after hrest,
          count_update]
    · simpa only [count_update] using h'

/-- Counters made one after another, in whatever order they are called: the calls of each of them
give the numbers after its start as long as these fit, and after that the calls fail and leave the
greatest number as it is. The number of a counter is nowhere but in its own frame. -/
theorem calls_counted (host : Host) (fuel : ℕ) (names calls : List String)
    (start : String → Int64) (p : Program) (hp : p.forms = setUp names start)
    (hnodup : names.Nodup) (hfree : ∀ name ∈ names, name ∉ reserved)
    (hcalls : ∀ name ∈ calls, name ∈ names) :
    ∃ v w results w',
      p.execute host (fuel + 4) (World.start .global).1 (World.start .global).2 =
        some (.ok v, w) ∧
      callAll host (fuel + 4) calls w = some (.ok results, w') ∧
      results.length = calls.length ∧
      (∀ before name after, calls = before ++ name :: after →
        results[before.length]? = some (counted (start name) (before.count name + 1))) ∧
      (∀ name ∈ names, ∃ mark captured,
        w'.store.get? (World.start .global).1 name =
          some (.function mark [] [increment] captured) ∧
        w'.store.get? captured "n" = some (.number (standing (start name) (calls.count name)))) ∧
      w'.store.get? (World.start .global).1 "n" = none := by
  obtain ⟨u, w₁, hmaker, h₁⟩ := holds_maker host fuel (fun _ => 0) start
    (w := (World.start .global).2.logged (.executing 0 maker)) rfl
  obtain ⟨v, w, place, hmaking, h⟩ := h₁.execute host fuel 1 u hnodup hfree
    fun _ _ => List.not_mem_nil
  have hsetUp : p.execute host (fuel + 4) (World.start .global).1 (World.start .global).2 =
      some (.ok v, w) := by
    rw [Program.execute, hp, setUp]
    exact (Program.executeFrom_cons hmaker).trans hmaking
  have hnames : Holds names place (fun name => standing (start name) 0) w.store := by
    simp only [standing_zero]
    exact h.subset fun name hname => by simp [hname]
  obtain ⟨results, w', hrun, hlength, hcounted, h'⟩ :=
    Holds.callAll host fuel start (fun _ => 0) hnames hcalls
  simp only [Nat.zero_add] at hcounted h'
  refine ⟨v, w, results, w', hsetUp, hrun, hlength, hcounted, fun name hname => ?_, ?_⟩
  · obtain ⟨mark, hclosure⟩ := h'.closure name hname
    exact ⟨mark, _, Store.get?_single.trans hclosure, h'.get?_number hname⟩
  · exact Store.get?_single.trans h'.unbound

def pairSource : String :=
  "(define make (lambda [n] (lambda [] (setf! n (+ n 1)))))" ++
    "(define c1 (make 9223372036854775806)) (define c2 (make -1))"

set_option maxRecDepth 4000 in
theorem calls_counted_pair : ∃ p w results w',
    Program.ofSource Reader.defaultOptions none pairSource = .ok p ∧
    (∃ v, p.execute [] 4 (World.start .global).1 (World.start .global).2 = some (.ok v, w)) ∧
    callAll [] 4 ["c1", "c2", "c1", "c2"] w = some (.ok results, w') ∧
    results[0]? = some (.ok (.number 9223372036854775807)) ∧
    results[1]? = some (.ok (.number 0)) ∧
    results[2]? = some (.error (.failure (.integerOverflow .addition) (some addition))) ∧
    results[3]? = some (.ok (.number 1)) ∧
    w'.store.get? (World.start .global).1 "n" = none := by
  obtain ⟨p, hp, hforms⟩ : ∃ p, Program.ofSource Reader.defaultOptions none pairSource = .ok p ∧
      p.forms = setUp ["c1", "c2"] fun name => if name = "c1" then 9223372036854775806 else -1 :=
    ⟨_, rfl, rfl⟩
  obtain ⟨v, w, results, w', hrun, hcalls, -, hresults, -, hn⟩ := calls_counted [] 0 ["c1", "c2"]
    ["c1", "c2", "c1", "c2"] _ p hforms (by decide) (by decide) (by decide)
  refine ⟨p, w, results, w', hp, ⟨v, hrun⟩, hcalls, ?_, ?_, ?_, ?_, hn⟩
  · exact hresults [] "c1" ["c2", "c1", "c2"] rfl
  · exact hresults ["c1"] "c2" ["c1", "c2"] rfl
  · exact hresults ["c1", "c2"] "c1" ["c2"] rfl
  · exact hresults ["c1", "c2", "c1"] "c2" [] rfl

end Lisplet.Counters
