import Lisplet.Proofs.Eval.Context
import Lisplet.Proofs.Program.Execution
import Lisplet.Proofs.Store.Lookup

/-! A closure that adds the numbers of a list to a global total, one call inside another. The total
moves on with every number, so that after an overflow it stands at the last sum that fits. -/

namespace Lisplet.Totals

def zero : Value :=
  .ofList [.symbol "define", .symbol "total", .number 0]

def addition : Value :=
  .ofList [.symbol "+", .symbol "total", .ofList [.symbol "car", .symbol "xs"]]

def update : Value :=
  .ofList [.symbol "setf!", .symbol "total", addition]

def again : Value :=
  .ofList [.symbol "add-all", .ofList [.symbol "cdr", .symbol "xs"]]

def body : Value :=
  .ofList [.symbol "if", .ofList [.symbol "null?", .symbol "xs"], .symbol "total",
    .ofList [.symbol "begin", update, again]]

def adder : Value :=
  .ofList [.symbol "define", .symbol "add-all",
    .ofList [.symbol "lambda", .ofList [.symbol "xs"], body]]

def start (xs : List Int64) : Value :=
  .ofList [.symbol "add-all", .quoted (.ofList (xs.map .number))]

def forms (xs : List Int64) : List Value :=
  [zero, adder, start xs]

def outcome (total : Int64) : List Int64 → Except Fault Value × Int64
  | [] => (.ok (.number total), total)
  | x :: xs =>
    match Integer.fit? (total.toInt + x.toInt) with
    | some next => outcome next xs
    | none => (.error (.failure (.integerOverflow .addition) (some addition)), total)

/-! Sums. -/

def Fits (n : ℤ) : Prop :=
  -2 ^ 63 ≤ n ∧ n < 2 ^ 63

instance (n : ℤ) : Decidable (Fits n) :=
  inferInstanceAs (Decidable (_ ∧ _))

def runningSum (xs : List Int64) (k : ℕ) : ℤ :=
  ((xs.take k).map Int64.toInt).sum

variable {total next x : Int64} {xs : List Int64} {n : ℤ}

lemma fits_toInt (x : Int64) : Fits x.toInt :=
  Integer.toInt_mem_range x

lemma fit?_eq_none_iff : Integer.fit? n = none ↔ ¬ Fits n :=
  Integer.fit?_eq_none_iff

lemma runningSum_zero : runningSum xs 0 = 0 :=
  rfl

lemma runningSum_cons (k : ℕ) : runningSum (x :: xs) (k + 1) = x.toInt + runningSum xs k :=
  List.sum_cons

lemma fits_start : Fits (total.toInt + runningSum xs 0) := by
  rw [runningSum_zero, Int.add_zero]
  exact fits_toInt total

lemma add_runningSum (hnext : next.toInt = total.toInt + x.toInt) (k : ℕ) :
    total.toInt + runningSum (x :: xs) (k + 1) = next.toInt + runningSum xs k := by
  rw [runningSum_cons, hnext, Int.add_assoc]

lemma fits_cons_iff (hnext : next.toInt = total.toInt + x.toInt) (m : ℕ) :
    (∀ k ≤ m + 1, Fits (total.toInt + runningSum (x :: xs) k)) ↔
      ∀ k ≤ m, Fits (next.toInt + runningSum xs k) := by
  constructor
  · intro h k hk
    rw [← add_runningSum hnext]
    exact h (k + 1) (Nat.succ_le_succ hk)
  · intro h k hk
    cases k with
    | zero => exact fits_start
    | succ k =>
      rw [add_runningSum hnext]
      exact h k (Nat.le_of_succ_le_succ hk)

lemma not_fits_cons (hfit : Integer.fit? (total.toInt + x.toInt) = none) :
    ¬ Fits (total.toInt + runningSum (x :: xs) 1) := by
  rw [runningSum_cons, runningSum_zero, Int.add_zero]
  exact fit?_eq_none_iff.1 hfit

lemma outcome_cons (hfit : Integer.fit? (total.toInt + x.toInt) = some next) :
    outcome total (x :: xs) = outcome next xs := by
  simp only [outcome, hfit]

lemma outcome_stop (hfit : Integer.fit? (total.toInt + x.toInt) = none) :
    outcome total (x :: xs) =
      (.error (.failure (.integerOverflow .addition) (some addition)), total) := by
  simp only [outcome, hfit]

lemma outcome_of_fits (h : ∀ k ≤ xs.length, Fits (total.toInt + runningSum xs k)) :
    ∃ n : Int64, n.toInt = total.toInt + (xs.map Int64.toInt).sum ∧
      outcome total xs = (.ok (.number n), n) := by
  induction xs generalizing total with
  | nil => exact ⟨total, (Int.add_zero _).symm, rfl⟩
  | cons x xs ih =>
    cases hfit : Integer.fit? (total.toInt + x.toInt) with
    | none => exact absurd (h 1 (Nat.succ_le_succ (Nat.zero_le _))) (not_fits_cons hfit)
    | some next =>
      have hnext := Integer.fit?_eq_some_iff.1 hfit
      obtain ⟨n, hn, houtcome⟩ := ih ((fits_cons_iff hnext _).1 h)
      refine ⟨n, ?_, (outcome_cons hfit).trans houtcome⟩
      rw [hn, hnext, List.map_cons, List.sum_cons, Int.add_assoc]

lemma outcome_of_overflow (h : ¬ ∀ k ≤ xs.length, Fits (total.toInt + runningSum xs k)) :
    ∃ k < xs.length, (∀ j ≤ k, Fits (total.toInt + runningSum xs j)) ∧
      ¬ Fits (total.toInt + runningSum xs (k + 1)) ∧
      ∃ n : Int64, n.toInt = total.toInt + runningSum xs k ∧
        outcome total xs =
          (.error (.failure (.integerOverflow .addition) (some addition)), n) := by
  induction xs generalizing total with
  | nil =>
    refine absurd (fun k hk => ?_) h
    obtain rfl := Nat.le_zero.1 hk
    exact fits_start
  | cons x xs ih =>
    cases hfit : Integer.fit? (total.toInt + x.toInt) with
    | none =>
      refine ⟨0, Nat.succ_pos _, fun j hj => ?_, not_fits_cons hfit, total,
        (Int.add_zero _).symm, outcome_stop hfit⟩
      obtain rfl := Nat.le_zero.1 hj
      exact fits_start
    | some next =>
      have hnext := Integer.fit?_eq_some_iff.1 hfit
      rw [List.length_cons, fits_cons_iff hnext] at h
      obtain ⟨k, hk, hfits, hover, n, hn, houtcome⟩ := ih h
      refine ⟨k + 1, Nat.succ_lt_succ hk, (fits_cons_iff hnext k).2 hfits, ?_, n, ?_,
        (outcome_cons hfit).trans houtcome⟩
      · rwa [add_runningSum hnext]
      · rwa [add_runningSum hnext]

/-! The calls. -/

structure Holds (total : Int64) (store : Store) : Prop where
  library : ∀ name, name ≠ "total" → name ≠ "add-all" →
    (store.frame 0).get? name = Bindings.global.get? name
  closure : ∃ m, (store.frame 0).get? "add-all" = some (.function m ["xs"] [body] ⟨0, []⟩)
  number : (store.frame 0).get? "total" = some (.number total)

variable {store : Store} {host : Host} {fuel k : ℕ} {w : World} {mark : Option ℕ} {items : List Value}

namespace Holds

lemma frame_eq {store' : Store} (h : Holds total store) (h0 : store'.frame 0 = store.frame 0) :
    Holds total store' :=
  ⟨h0 ▸ h.library, h0 ▸ h.closure, h0 ▸ h.number⟩

lemma pos_size (h : Holds total store) : 0 < store.frames.size :=
  Store.lt_of_contains (Option.isSome_of_eq_some h.number)

lemma extend (h : Holds total store) (outer : Option Scope) (bindings : Bindings) :
    Holds total (store.extend outer bindings).2 :=
  h.frame_eq (Store.frame_extend_of_ne h.pos_size.ne)

lemma assign (h : Holds total store) (next : Int64) :
    Holds next (store.bind 0 "total" (.number next)) := by
  have hget (name : String) : ((store.bind 0 "total" (.number next)).frame 0).get? name =
      if name = "total" then some (.number next) else (store.frame 0).get? name := by
    rw [Store.frame_bind_self h.pos_size, Bindings.get?_insert]
  constructor
  case library =>
    intro name htotal hadder
    rw [hget, if_neg htotal]
    exact h.library name htotal hadder
  case closure =>
    rw [hget, if_neg (by decide)]
    exact h.closure
  case number => rw [hget, if_pos rfl]

lemma get?_call {name : String} (hk : store.frame k = [("xs", .list mark items)])
    (hname : name ≠ "xs") : store.get? ⟨k, [0]⟩ name = (store.frame 0).get? name := by
  have hframe : (store.frame k).get? name = none := by
    rw [hk, Bindings.get?_cons, if_neg hname]
    rfl
  rw [Store.get?_inside hframe, Store.get?_single]

lemma get?_param (hk : store.frame k = [("xs", .list mark items)]) :
    store.get? ⟨k, [0]⟩ "xs" = some (.list mark items) := by
  have hxs : (store.frame k).get? "xs" = some (.list mark items) := by
    rw [hk]
    rfl
  rw [Store.get?_here (Option.isSome_of_eq_some hxs), hxs]

lemma ne_zero (h : Holds total store) (hk : store.frame k = [("xs", .list mark items)]) :
    k ≠ 0 := by
  rintro rfl
  have hnumber := h.number
  rw [hk, Bindings.get?_cons, if_neg (by decide)] at hnumber
  cases hnumber

lemma get?_core (h : Holds total store) (hk : store.frame k = [("xs", .list mark items)])
    (f : CoreForm) : store.get? ⟨k, [0]⟩ f.name = some (.operation (.core f)) := by
  have hnames : f.name ≠ "xs" ∧ f.name ≠ "total" ∧ f.name ≠ "add-all" := by cases f <;> decide
  rw [get?_call hk hnames.1, h.library _ hnames.2.1 hnames.2.2, Bindings.get?_global_core]

lemma get?_builtin (h : Holds total store) (hk : store.frame k = [("xs", .list mark items)])
    (b : Builtin) : store.get? ⟨k, [0]⟩ b.name = some (.operation (.builtin b)) := by
  have hnames : b.name ≠ "xs" ∧ b.name ≠ "total" ∧ b.name ≠ "add-all" := by
    rcases b with f | f <;> cases f <;> decide
  rw [get?_call hk hnames.1, h.library _ hnames.2.1 hnames.2.2, Bindings.get?_global]

lemma assign?_total (h : Holds total store) (hk : store.frame k = [("xs", .list mark items)])
    (v : Value) : store.assign? ⟨k, [0]⟩ "total" v = some (store.bind 0 "total" v) := by
  have hframe : ¬ (store.frame k).contains "total" := by
    rw [hk]
    exact Bindings.not_contains_iff.2 rfl
  have hholder : store.holder? ⟨k, [0]⟩ "total" = some 0 := by
    rw [Store.holder?_outwards hframe rfl]
    exact Store.holder?_here (t := ⟨0, []⟩) (Option.isSome_of_eq_some h.number)
  exact Store.assign?_eq_some.2 ⟨0, hholder, rfl⟩

variable {v : Value} {vs : List Value}

lemma args_param (hk : w.store.frame k = [("xs", .list mark items)]) :
    Eval.args (perform host (fuel + 1)) [.symbol "xs"] ⟨k, [0]⟩ w =
      some (.ok [.list mark items], w) :=
  args_cons (eval_symbol (get?_param hk)) rfl

lemma eval_test (h : Holds total w.store) (hk : w.store.frame k = [("xs", .list mark items)]) :
    eval host (fuel + 2) (.ofList [.symbol "null?", .symbol "xs"]) ⟨k, [0]⟩ w =
      some (.ok (.boolean items.isEmpty), w) := by
  have hop : w.store.get? ⟨k, [0]⟩ "null?" = some (.operation (.builtin (.function .isEmpty))) :=
    h.get?_builtin hk (.function .isEmpty)
  rw [eval_call hop rfl (args_param hk)]
  rfl

lemma eval_first (h : Holds total w.store) (hk : w.store.frame k = [("xs", .list mark (v :: vs))]) :
    eval host (fuel + 2) (.ofList [.symbol "car", .symbol "xs"]) ⟨k, [0]⟩ w = some (.ok v, w) := by
  have hop : w.store.get? ⟨k, [0]⟩ "car" = some (.operation (.builtin (.function .first))) :=
    h.get?_builtin hk (.function .first)
  rw [eval_call hop rfl (args_param hk), Run.within, LibraryFunction.call_first]
  rfl

lemma eval_rest (h : Holds total w.store) (hk : w.store.frame k = [("xs", .list mark (v :: vs))]) :
    eval host (fuel + 2) (.ofList [.symbol "cdr", .symbol "xs"]) ⟨k, [0]⟩ w =
      some (.ok (.list (some w.store.marks) vs), w.marked) := by
  have hop : w.store.get? ⟨k, [0]⟩ "cdr" = some (.operation (.builtin (.function .rest))) :=
    h.get?_builtin hk (.function .rest)
  rw [eval_call hop rfl (args_param hk), Run.within, LibraryFunction.call_rest]
  rfl

lemma eval_total (h : Holds total w.store) (hk : w.store.frame k = [("xs", .list mark items)]) :
    eval host (fuel + 1) (.symbol "total") ⟨k, [0]⟩ w = some (.ok (.number total), w) :=
  eval_symbol ((get?_call hk (by decide)).trans h.number)

lemma args_addition (h : Holds total w.store)
    (hk : w.store.frame k = [("xs", .list mark (.number x :: vs))]) :
    Eval.args (perform host (fuel + 2)) [.symbol "total", .ofList [.symbol "car", .symbol "xs"]]
      ⟨k, [0]⟩ w = some (.ok [.number total, .number x], w) :=
  args_cons (h.eval_total hk) (args_cons (h.eval_first hk) rfl)

lemma eval_update (h : Holds total w.store)
    (hk : w.store.frame k = [("xs", .list mark (.number x :: vs))])
    (hfit : Integer.fit? (total.toInt + x.toInt) = some next) :
    eval host (fuel + 4) update ⟨k, [0]⟩ w =
      some (.ok (.number next), (w.logged (.assigned "total" (.number next))).stored
        (w.store.bind 0 "total" (.number next))) := by
  have haddition : eval host (fuel + 3) addition ⟨k, [0]⟩ w = some (.ok (.number next), w) :=
    eval_sum (h.get?_builtin hk (.function .add)) (h.args_addition hk) hfit
  exact eval_assign (h.get?_core hk .assign) haddition (h.assign?_total hk _)

lemma eval_update_overflow (h : Holds total w.store)
    (hk : w.store.frame k = [("xs", .list mark (.number x :: vs))])
    (hfit : Integer.fit? (total.toInt + x.toInt) = none) :
    eval host (fuel + 4) update ⟨k, [0]⟩ w =
      some (.error (.failure (.integerOverflow .addition) (some addition)), w) := by
  have haddition : eval host (fuel + 3) addition ⟨k, [0]⟩ w =
      some (.error (.failure (.integerOverflow .addition) (some addition)), w) :=
    eval_sum_overflow (h.get?_builtin hk (.function .add)) (h.args_addition hk) hfit
  exact eval_assign_error (h.get?_core hk .assign) haddition

lemma eval_further (h : Holds total w.store)
    (hk : w.store.frame k = [("xs", .list mark (v :: vs))]) :
    eval host (fuel + 4) body ⟨k, [0]⟩ w =
      (eval host (fuel + 2) update ⟨k, [0]⟩ >>= fun _ => eval host (fuel + 2) again ⟨k, [0]⟩) w := by
  have htest : eval host (fuel + 3) (.ofList [.symbol "null?", .symbol "xs"]) ⟨k, [0]⟩ w =
      some (.ok (.boolean false), w) := h.eval_test hk
  refine (eval_branch (h.get?_builtin hk (.form .branch)) htest).trans ?_
  refine (eval_begin (h.get?_builtin hk (.form .sequence))).trans ?_
  rw [sequence_pair]

lemma eval_again (h : Holds total w.store)
    (hk : w.store.frame k = [("xs", .list mark (v :: vs))]) :
    ∃ k' mark' w', eval host (fuel + 4) again ⟨k, [0]⟩ w = eval host (fuel + 3) body ⟨k', [0]⟩ w' ∧
      w'.store.frame k' = [("xs", .list mark' vs)] ∧ Holds total w'.store := by
  obtain ⟨m, hclosure⟩ := h.closure
  have hargs : Eval.args (perform host (fuel + 3)) [.ofList [.symbol "cdr", .symbol "xs"]]
      ⟨k, [0]⟩ w = some (.ok [.list (some w.store.marks) vs], w.marked) :=
    args_cons (h.eval_rest hk) rfl
  have hop : w.store.get? ⟨k, [0]⟩ "add-all" = some (.function m ["xs"] [body] ⟨0, []⟩) :=
    (get?_call hk (by decide)).trans hclosure
  have hframe : (w.marked.store.extend (some ⟨0, []⟩)
      [("xs", .list (some w.store.marks) vs)]).2.frame w.store.frames.size =
        [("xs", .list (some w.store.marks) vs)] := Store.frame_extend_self
  have hmarked : Holds total w.marked.store := h.frame_eq rfl
  have hinner : Holds total (w.marked.store.extend (some ⟨0, []⟩)
      [("xs", .list (some w.store.marks) vs)]).2 := hmarked.extend _ _
  exact ⟨_, _, _, Lisplet.eval_body hop hargs rfl, hframe, hinner⟩

theorem eval_body (host : Host) (fuel : ℕ) (h : Holds total w.store)
    (hk : w.store.frame k = [("xs", .list mark (xs.map .number))]) :
    ∃ w', eval host (fuel + 3 * xs.length + 3) body ⟨k, [0]⟩ w =
        some ((outcome total xs).1, w') ∧ Holds (outcome total xs).2 w'.store := by
  induction xs generalizing total k mark w with
  | nil =>
    have htest : eval host (fuel + 2) (.ofList [.symbol "null?", .symbol "xs"]) ⟨k, [0]⟩ w =
        some (.ok (.boolean true), w) := h.eval_test hk
    refine ⟨w, ?_, h⟩
    exact (eval_branch (h.get?_builtin hk (.form .branch)) htest).trans (h.eval_total hk)
  | cons x xs ih =>
    have hfuel : fuel + 3 * (x :: xs).length + 3 = fuel + 3 * xs.length + 2 + 4 := by
      rw [List.length_cons]
      omega
    rw [hfuel, h.eval_further hk]
    cases hfit : Integer.fit? (total.toInt + x.toInt) with
    | none =>
      rw [outcome_stop hfit, Run.bind_of_error (h.eval_update_overflow hk hfit)]
      exact ⟨w, rfl, h⟩
    | some next =>
      rw [outcome_cons hfit, Run.bind_of_ok (h.eval_update hk hfit)]
      have hframe : (w.store.bind 0 "total" (.number next)).frame k =
          [("xs", .list mark ((x :: xs).map .number))] := by
        rw [Store.frame_bind_of_ne (h.ne_zero hk), hk]
      have hnext : Holds next ((w.logged (.assigned "total" (.number next))).stored
          (w.store.bind 0 "total" (.number next))).store := h.assign next
      obtain ⟨k', mark', w', hagain, hk', h'⟩ := hnext.eval_again hframe
      rw [hagain]
      exact ih h' hk'

lemma eval_start (host : Host) (fuel : ℕ) (h : Holds total w.store) (xs : List Int64) :
    ∃ w', eval host (fuel + 3 * xs.length + 4) (start xs) ⟨0, []⟩ w =
        some ((outcome total xs).1, w') ∧ Holds (outcome total xs).2 w'.store := by
  obtain ⟨m, hclosure⟩ := h.closure
  have hquote : w.store.get? ⟨0, []⟩ "quote" = some (.operation (.core .quote)) := by
    rw [Store.get?_single, h.library _ (by decide) (by decide)]
    exact Bindings.get?_global_core .quote
  have hargs : Eval.args (perform host (fuel + 3 * xs.length + 3))
      [.quoted (.ofList (xs.map .number))] ⟨0, []⟩ w =
        some (.ok [.ofList (xs.map .number)], w) := args_cons (eval_quote hquote) rfl
  have hinner : Holds total (w.store.extend (some ⟨0, []⟩)
      [("xs", .ofList (xs.map .number))]).2 := h.extend _ _
  have hframe : (w.store.extend (some ⟨0, []⟩) [("xs", .ofList (xs.map .number))]).2.frame
      w.store.frames.size = [("xs", .ofList (xs.map .number))] := Store.frame_extend_self
  obtain ⟨w', hrun, h'⟩ := Holds.eval_body host fuel
    (w := w.stored (w.store.extend (some ⟨0, []⟩) [("xs", .ofList (xs.map .number))]).2) hinner
    hframe
  exact ⟨w', (Lisplet.eval_body (Store.get?_single.trans hclosure) hargs rfl).trans hrun, h'⟩

end Holds

/-! The program. -/

def closure (m : ℕ) : Value :=
  .function m ["xs"] [body] ⟨0, []⟩

lemma eval_zero (h0 : w.store.frame 0 = Bindings.global) :
    eval host (fuel + 2) zero ⟨0, []⟩ w = some (.ok (.number 0),
      (w.logged (.defined "total" (.number 0))).stored (w.store.bind 0 "total" (.number 0))) := by
  have hdefine : w.store.get? ⟨0, []⟩ "define" = some (.operation (.core .define)) := by
    rw [Store.get?_single, h0]
    exact Bindings.get?_global_core .define
  exact eval_define hdefine rfl

lemma eval_adder (h0 : store.frame 0 = Bindings.global)
    (hw : w.store = store.bind 0 "total" (.number 0)) :
    eval host (fuel + 3) adder ⟨0, []⟩ w = some (.ok (closure w.store.marks),
      (w.marked.logged (.defined "add-all" (closure w.store.marks))).stored
        (w.marked.store.bind 0 "add-all" (closure w.store.marks))) := by
  have hcore (f : CoreForm) : w.store.get? ⟨0, []⟩ f.name = some (.operation (.core f)) := by
    have hname : f.name ≠ "total" := by cases f <;> decide
    rw [hw, Store.get?_bind_of_ne hname, Store.get?_single, h0, Bindings.get?_global_core]
  exact eval_define (hcore .define) (eval_lambda (hcore .lambda) rfl)

lemma holds_setUp (h0 : store.frame 0 = Bindings.global) (m : ℕ) :
    Holds 0 ((store.bind 0 "total" (.number 0)).bind 0 "add-all" (closure m)) := by
  have hdefine : (store.frame 0).contains "define" := by
    rw [h0]
    exact Option.isSome_of_eq_some (Bindings.get?_global_core .define)
  have hsize : 0 < store.frames.size := Store.lt_of_contains hdefine
  have hsize' : 0 < (store.bind 0 "total" (.number 0)).frames.size := by rwa [Store.size_bind]
  constructor
  case library =>
    intro name htotal hadder
    rw [Store.get?_frame_bind_of_ne hadder, Store.get?_frame_bind_of_ne htotal, h0]
  case closure =>
    refine ⟨m, ?_⟩
    rw [Store.frame_bind_self hsize', Bindings.get?_insert, if_pos rfl, closure]
  case number =>
    rw [Store.get?_frame_bind_of_ne (by decide), Store.frame_bind_self hsize,
      Bindings.get?_insert, if_pos rfl]

lemma executeFrom_forms (host : Host) (fuel : ℕ) (last : Value) (xs : List Int64)
    (h0 : w.store.frame 0 = Bindings.global) :
    ∃ w', Program.executeFrom host (fuel + 3 * xs.length + 4) ⟨0, []⟩ 0 last (forms xs) w =
        some ((outcome 0 xs).1, w') ∧ Holds (outcome 0 xs).2 w'.store := by
  let w₁ := ((w.logged (.executing 0 zero)).logged (.defined "total" (.number 0))).stored
    (w.store.bind 0 "total" (.number 0))
  let f := closure w₁.store.marks
  let w₂ := ((w₁.logged (.executing 1 adder)).marked.logged (.defined "add-all" f)).stored
    (w₁.marked.store.bind 0 "add-all" f)
  have hzero : eval host (fuel + 3 * xs.length + 4) zero ⟨0, []⟩ (w.logged (.executing 0 zero)) =
      some (.ok (.number 0), w₁) := eval_zero h0
  have hadder : eval host (fuel + 3 * xs.length + 4) adder ⟨0, []⟩
      (w₁.logged (.executing 1 adder)) = some (.ok f, w₂) := eval_adder h0 rfl
  have hsetUp : Holds 0 (w₂.logged (.executing 2 (start xs))).store :=
    (holds_setUp h0 w₁.store.marks).frame_eq rfl
  obtain ⟨w', hstart, h'⟩ := hsetUp.eval_start host fuel xs
  refine ⟨w', ?_, h'⟩
  rw [forms, Program.executeFrom_cons hzero, Program.executeFrom_cons hadder]
  exact Program.executeFrom_singleton.trans hstart

/-- The totals of a program that adds up some numbers. If all sums on the way fit, the last one is
the result and the total. Otherwise the program fails, and the total is the sum before the first one
that does not fit. -/
theorem execute_totals (host : Host) (fuel : ℕ) (xs : List Int64) (p : Program)
    (hp : p.forms = forms xs) :
    ∃ r w', p.execute host (fuel + 3 * xs.length + 4) (World.start .global).1
        (World.start .global).2 = some (r, w') ∧
      ((∀ k ≤ xs.length, Fits (runningSum xs k)) →
        ∃ n : Int64, n.toInt = (xs.map Int64.toInt).sum ∧ r = .ok (.number n) ∧
          w'.store.get? (World.start .global).1 "total" = some (.number n)) ∧
      ((¬ ∀ k ≤ xs.length, Fits (runningSum xs k)) →
        ∃ k < xs.length, (∀ j ≤ k, Fits (runningSum xs j)) ∧ ¬ Fits (runningSum xs (k + 1)) ∧
          r = .error (.failure (.integerOverflow .addition) (some addition)) ∧
          ∃ n : Int64, n.toInt = runningSum xs k ∧
            w'.store.get? (World.start .global).1 "total" = some (.number n)) := by
  obtain ⟨w', hrun, h⟩ := executeFrom_forms host fuel .unspecified xs
    (w := (World.start .global).2) rfl
  have hexecute : p.execute host (fuel + 3 * xs.length + 4) (World.start .global).1
      (World.start .global).2 = some ((outcome 0 xs).1, w') := by
    rw [Program.execute, hp]
    exact hrun
  have htotal : w'.store.get? (World.start .global).1 "total" =
      some (.number (outcome 0 xs).2) := Store.get?_single.trans h.number
  have hzero (n : ℤ) : (0 : Int64).toInt + n = n := Int.zero_add n
  have hall : (∀ k ≤ xs.length, Fits ((0 : Int64).toInt + runningSum xs k)) ↔
      ∀ k ≤ xs.length, Fits (runningSum xs k) := by simp only [hzero]
  refine ⟨_, w', hexecute, fun hfits => ?_, fun hover => ?_⟩
  · obtain ⟨n, hn, houtcome⟩ := outcome_of_fits (hall.2 hfits)
    rw [houtcome] at htotal
    exact ⟨n, hn.trans (hzero _), congrArg Prod.fst houtcome, htotal⟩
  · obtain ⟨k, hk, hfits, hnot, n, hn, houtcome⟩ := outcome_of_overflow fun h => hover (hall.1 h)
    simp only [hzero] at hfits hnot hn
    rw [houtcome] at htotal
    exact ⟨k, hk, hfits, hnot, congrArg Prod.fst houtcome, n, hn, htotal⟩

def overflowing : String :=
  "; running totals
(define total 0)
(define add-all (lambda [xs]
 (if (null? xs) total (begin (setf! total (+ total (car xs))) (add-all (cdr xs))))))
(add-all '(9223372036854775800 7 -5 6 1))"

set_option maxRecDepth 4000 in
theorem execute_totals_overflow : ∃ p w',
    Program.ofSource Reader.defaultOptions none overflowing = .ok p ∧
    p.execute [] 19 (World.start .global).1 (World.start .global).2 =
      some (.error (.failure (.integerOverflow .addition) (some addition)), w') ∧
    w'.store.get? (World.start .global).1 "total" = some (.number 9223372036854775802) := by
  obtain ⟨p, hp, hforms⟩ : ∃ p, Program.ofSource Reader.defaultOptions none overflowing = .ok p ∧
      p.forms = forms [9223372036854775800, 7, -5, 6, 1] := ⟨_, rfl, rfl⟩
  obtain ⟨r, w', hrun, -, hover⟩ := execute_totals [] 0 _ p hforms
  obtain ⟨k, hk, hfits, hnot, rfl, n, hn, htotal⟩ := hover (by decide)
  have hbefore : ∀ j < 4, Fits (runningSum [9223372036854775800, 7, -5, 6, 1] j) := by decide
  have hfourth : ¬ Fits (runningSum [9223372036854775800, 7, -5, 6, 1] 4) := by decide
  have hle : k ≤ 3 := Nat.le_of_not_lt fun h => hfourth (hfits 4 h)
  have hge : 3 ≤ k := Nat.le_of_not_lt fun h => hnot (hbefore (k + 1) (Nat.succ_lt_succ h))
  obtain rfl := Nat.le_antisymm hle hge
  have hlast : n = 9223372036854775802 := Int64.toInt_inj.1 hn
  exact ⟨p, w', hp, hrun, hlast ▸ htotal⟩

end Lisplet.Totals
