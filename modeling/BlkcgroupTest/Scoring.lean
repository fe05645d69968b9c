import BlkcgroupTest.Containers
import Mathlib.Algebra.BigOperators.Ring.List
import Mathlib.Algebra.Order.BigOperators.Group.List
import Mathlib.Data.Rat.Floor

/-!
# blkcgroup test: scoring an experiment

`score_max_error` sums the disk times of the containers, turns each time into the
weight the container achieved (`time * MAX_VALID_WEIGHT / (total_time or 1)`, Python 2
integer division, which floors), and keeps the largest distance to the requested
weight; `score_experiment` passes when that distance is at most the allowed error.

The two loops are first shown to compute pure folds once every container has a time
(`scoreMaxError_eq`): the achieved weights `weights`, accumulated by `scoreAcc`.

Results:

* `scoreMaxError_spec`: for non-negative times the result is the largest error
  `|⌊1000 t / T⌋ - dtf|` of the spec, with the floor taken over `ℚ` and `T` the total
  when positive and `1` otherwise, and the experiment passes iff every error is within
  the allowed one.
* `scoreMaxError_scale`: multiplying every time by `k ≥ 1` changes neither the result of
  `score_max_error` (error and printed weights) nor the verdict.
* `scoreMaxError_weights_readBack`: the achieved-weights string that `score_experiment`
  logs is the weights joined by `', '`, and reads back, split at `','` and each piece
  through `int()`, as the achieved weights in container order.
* `measureContainers_scoreExperiment`: after `measure_containers` from `timevals = {}`,
  `score_experiment` raises exactly when a container's `blkio.time` has no line for the
  device, and the `KeyError` names the first such container.
* `weights_bounds`: for non-negative times every achieved weight is in `[0, 1000]`; with
  a positive total the `n` weights sum to a value in `(1000 - n, 1000]`, and with a zero
  total they are all `0`.
-/

namespace BlkcgroupTest

/-- `MAX_VALID_WEIGHT`. -/
def maxValidWeight : Int :=
  1000

section Scoring

/-- `timevals[container['name']]`. -/
def lookupTime (timevals : List Char → Option Int) (name : List Char) : Except PyError Int :=
  match timevals name with
  | some t => .ok t
  | none => .error (.keyError name)

/-- One pass of the first loop of `score_max_error`: `total_time += timevals[...]`. -/
def addTime (timevals : List Char → Option Int) (totalTime : Int) (container : Built) :
    Except PyError Int := do
  let t ← lookupTime timevals container.name
  return totalTime + t

/-- One pass of the second loop of `score_max_error`, on `(actual_weights_str, maxerr)`. -/
def scoreStep (timevals : List Char → Option Int) (totalTime : Int) (acc : List Char × Int)
    (container : Built) : Except PyError (List Char × Int) := do
  let time ← lookupTime timevals container.name
  let actualWeight := Int.fdiv (time * maxValidWeight) (if totalTime = 0 then 1 else totalTime)
  let actualWeightsStr := acc.1 ++ pyIntStr actualWeight
  let error := |actualWeight - (container.dtf : Int)|
  return (actualWeightsStr ++ ", ".toList, max acc.2 error)

/-- `score_max_error(tree, timevals)`: the largest error and the achieved weights. -/
def scoreMaxError (tree : List Built) (timevals : List Char → Option Int) :
    Except PyError (Int × List Char) := do
  let totalTime ← tree.foldlM (addTime timevals) 0
  let (actualWeightsStr, maxerr) ← tree.foldlM (scoreStep timevals totalTime) ([], 0)
  return (maxerr, actualWeightsStr.take (actualWeightsStr.length - 2))

/-- `score_experiment(exper_num, exper, timevals, allowed_err)`. -/
def scoreExperiment (exper : List Built) (timevals : List Char → Option Int) (allowedErr : Int) :
    Except PyError Bool := do
  let (maxerrWeight, _) ← scoreMaxError exper timevals
  return decide (maxerrWeight ≤ allowedErr)

end Scoring

section Folds

/-- The second loop's step once the achieved and the requested weight are known. -/
def scoreAcc (acc : List Char × Int) (wd : Int × Int) : List Char × Int :=
  (acc.1 ++ pyIntStr wd.1 ++ ", ".toList, max acc.2 |wd.1 - wd.2|)

/-- The achieved weight of each container, as the second loop computes it from the
times `time`, with the requested weight. -/
def weights (tree : List Built) (time : List Char → Int) : List (Int × Int) :=
  let totalTime := (tree.map fun c => time c.name).sum
  tree.map fun c =>
    (Int.fdiv (time c.name * maxValidWeight) (if totalTime = 0 then 1 else totalTime), c.dtf)

/-- What `score_max_error` returns for given achieved and requested weights. -/
def scoreOf (ws : List (Int × Int)) : Int × List Char :=
  let acc := ws.foldl scoreAcc ([], 0)
  (acc.2, acc.1.take (acc.1.length - 2))

/-- A loop whose every pass succeeds computes the fold of the passes' results. -/
theorem foldlM_except_ok {α β : Type} {l : List α} {f : β → α → Except PyError β}
    {g : β → α → β} (hf : ∀ b, ∀ a ∈ l, f b a = .ok (g b a)) (b : β) :
    l.foldlM f b = .ok (l.foldl g b) := by
  induction l generalizing b with
  | nil => rfl
  | cons a l ih =>
      rw [List.foldlM_cons, hf b a (List.mem_cons_self a l)]
      exact ih (fun b' x hx => hf b' x (List.mem_cons_of_mem a hx)) _

theorem foldl_add_time (time : List Char → Int) (tree : List Built) (acc : Int) :
    tree.foldl (fun total c => total + time c.name) acc =
      acc + (tree.map fun c => time c.name).sum := by
  induction tree generalizing acc with
  | nil => simp
  | cons c tree ih =>
      rw [List.foldl_cons, ih, List.map_cons, List.sum_cons, add_assoc]

/-- The largest error `score_max_error` returns is the fold of `max` over the errors. -/
theorem scoreOf_fst (ws : List (Int × Int)) :
    (scoreOf ws).1 = (ws.map fun wd => |wd.1 - wd.2|).foldl max 0 := by
  suffices ∀ acc : List Char × Int,
      (ws.foldl scoreAcc acc).2 = (ws.map fun wd => |wd.1 - wd.2|).foldl max acc.2 from this _
  induction ws with
  | nil => intro; rfl
  | cons wd ws ih => intro acc; exact ih _

section Times

variable {tree : List Built} {timevals : List Char → Option Int} {time : List Char → Int}

/-- The total of the times `time` as `score_max_error` takes it. -/
theorem foldlM_addTime (ht : ∀ c ∈ tree, timevals c.name = some (time c.name)) :
    tree.foldlM (addTime timevals) 0 = .ok (tree.map fun c => time c.name).sum := by
  have hstep : ∀ b, ∀ c ∈ tree, addTime timevals b c = .ok (b + time c.name) := by
    intro b c hc
    simp [addTime, lookupTime, ht c hc]
  rw [foldlM_except_ok hstep, foldl_add_time, zero_add]

/-- Once every container has a time, `score_max_error` is `scoreOf` of the weights. -/
theorem scoreMaxError_eq (ht : ∀ c ∈ tree, timevals c.name = some (time c.name)) :
    scoreMaxError tree timevals = .ok (scoreOf (weights tree time)) := by
  have hstep : ∀ (T : Int) acc, ∀ c ∈ tree, scoreStep timevals T acc c =
      .ok (scoreAcc acc (Int.fdiv (time c.name * maxValidWeight) (if T = 0 then 1 else T),
        c.dtf)) := by
    intro T acc c hc
    simp [scoreStep, scoreAcc, lookupTime, ht c hc]
  simp only [scoreMaxError, foldlM_addTime ht, foldlM_except_ok (hstep _), weights, scoreOf,
    List.foldl_map]
  rfl

/-- Multiplying every time by `k > 0` leaves the achieved weights alone. -/
theorem weights_scale {k : Int} (hk : 0 < k) (hnn : ∀ c ∈ tree, 0 ≤ time c.name) :
    weights tree (fun n => k * time n) = weights tree time := by
  have hS : 0 ≤ (tree.map fun c => time c.name).sum :=
    List.sum_nonneg (by simpa using hnn)
  simp only [weights, List.sum_map_mul_left]
  refine List.map_congr_left fun c hc => ?_
  by_cases h0 : (tree.map fun c => time c.name).sum = 0
  · have ht0 : time c.name = 0 :=
      List.all_zero_of_le_zero_le_of_sum_eq_zero (by simpa using hnn) h0
        (List.mem_map_of_mem _ hc)
    simp [h0, ht0]
  · rw [if_neg (mul_ne_zero hk.ne' h0), if_neg h0, Int.fdiv_eq_ediv _ (mul_nonneg hk.le hS),
      Int.fdiv_eq_ediv _ hS, mul_assoc, Int.mul_ediv_mul_of_pos _ _ hk]

end Times

/-- Multiplying every disk time by `k ≥ 1` changes neither what `score_max_error`
returns (the largest error and the printed weights) nor the verdict. -/
theorem scoreMaxError_scale (tree : List Built) (timevals timevals' : List Char → Option Int)
    (time : List Char → Int) (k allowedErr : Int) (hk : 1 ≤ k)
    (ht : ∀ c ∈ tree, timevals c.name = some (time c.name))
    (ht' : ∀ c ∈ tree, timevals' c.name = some (k * time c.name))
    (hnn : ∀ c ∈ tree, 0 ≤ time c.name) :
    scoreMaxError tree timevals' = scoreMaxError tree timevals ∧
      scoreExperiment tree timevals' allowedErr = scoreExperiment tree timevals allowedErr := by
  have h : scoreMaxError tree timevals' = scoreMaxError tree timevals := by
    rw [@scoreMaxError_eq tree timevals' (fun n => k * time n) ht', scoreMaxError_eq ht,
      weights_scale (by omega) hnn]
  exact ⟨h, by simp only [scoreExperiment, h]⟩

theorem scoreMaxError_scale_ninety_ten :
    scoreMaxError
        [⟨⟨⟨900, none, 0⟩, []⟩, ⟨[], []⟩, ⟨[], []⟩, "g0".toList⟩,
          ⟨⟨⟨100, none, 0⟩, []⟩, ⟨[], []⟩, ⟨[], []⟩, "g1".toList⟩]
        (fun n => some (3 * if n = "g0".toList then 90 else 10)) =
      scoreMaxError
        [⟨⟨⟨900, none, 0⟩, []⟩, ⟨[], []⟩, ⟨[], []⟩, "g0".toList⟩,
          ⟨⟨⟨100, none, 0⟩, []⟩, ⟨[], []⟩, ⟨[], []⟩, "g1".toList⟩]
        (fun n => some (if n = "g0".toList then 90 else 10)) ∧
    scoreExperiment
        [⟨⟨⟨900, none, 0⟩, []⟩, ⟨[], []⟩, ⟨[], []⟩, "g0".toList⟩,
          ⟨⟨⟨100, none, 0⟩, []⟩, ⟨[], []⟩, ⟨[], []⟩, "g1".toList⟩]
        (fun n => some (3 * if n = "g0".toList then 90 else 10)) 0 =
      scoreExperiment
        [⟨⟨⟨900, none, 0⟩, []⟩, ⟨[], []⟩, ⟨[], []⟩, "g0".toList⟩,
          ⟨⟨⟨100, none, 0⟩, []⟩, ⟨[], []⟩, ⟨[], []⟩, "g1".toList⟩]
        (fun n => some (if n = "g0".toList then 90 else 10)) 0 :=
  scoreMaxError_scale _ _ _ (fun n => if n = "g0".toList then 90 else 10) 3 0 (by decide)
    (fun _ _ => rfl) (fun _ _ => rfl) (by decide)

end Folds

section Weights

section Bounds

variable {tree : List Built} {time : List Char → Int}

/-- With a positive total the achieved weights are `time * 1000 / total`, rounded down. -/
theorem weights_of_total_pos (hT : 0 < (tree.map fun c => time c.name).sum) :
    weights tree time = tree.map fun c =>
      (time c.name * maxValidWeight / (tree.map fun c => time c.name).sum, (c.dtf : Int)) := by
  simp only [weights, if_neg hT.ne']
  refine List.map_congr_left fun c hc => ?_
  rw [Int.fdiv_eq_ediv _ hT.le]

/-- With a zero total every achieved weight is `0`. -/
theorem weights_of_total_zero (h0 : (tree.map fun c => time c.name).sum = 0)
    (hnn : ∀ c ∈ tree, 0 ≤ time c.name) : ∀ wd ∈ weights tree time, wd.1 = 0 := by
  simp only [weights, h0, if_true, List.mem_map]
  rintro _ ⟨c, hc, rfl⟩
  have ht0 : time c.name = 0 :=
    List.all_zero_of_le_zero_le_of_sum_eq_zero (by simpa using hnn) h0 (List.mem_map_of_mem _ hc)
  simp [ht0]

/-- `⌊1000 t / T⌋` for `0 ≤ t ≤ T`, `T > 0`, lies in `[0, 1000]`. -/
theorem weight_mem_range {t T : Int} (hT : 0 < T) (ht : 0 ≤ t) (htT : t ≤ T) :
    0 ≤ t * maxValidWeight / T ∧ t * maxValidWeight / T ≤ maxValidWeight :=
  ⟨Int.ediv_nonneg (by simp [maxValidWeight]; omega) hT.le,
    Int.ediv_le_of_le_mul hT (by rw [mul_comm]; exact mul_le_mul_of_nonneg_left htT (by decide))⟩

/-- Rounding each term of a sum down by the same positive divisor loses less than one
per term. -/
theorem sum_ediv_bounds {α : Type} (l : List α) (f : α → Int) {T : Int} (hT : 0 < T) :
    (l.map fun a => f a / T).sum * T ≤ (l.map f).sum ∧
      (l ≠ [] → (l.map f).sum < ((l.map fun a => f a / T).sum + l.length) * T) := by
  constructor
  · rw [← List.sum_map_mul_right]
    exact List.sum_le_sum fun a _ => Int.ediv_mul_le _ hT.ne'
  · intro hne
    calc (l.map f).sum < (l.map fun a => (f a / T + 1) * T).sum :=
          List.sum_lt_sum_of_ne_nil hne _ _ fun a _ => Int.lt_ediv_add_one_mul_self _ hT
      _ = ((l.map fun a => f a / T).sum + l.length) * T := by
          rw [List.sum_map_mul_right, List.sum_map_add]
          simp

end Bounds

/-- For non-negative disk times every weight `score_max_error` achieves lies in
`[0, 1000]`; with a positive total `T` the `n` weights sum to more than `1000 - n` and at
most `1000`, and with `T = 0` every weight is `0`. -/
theorem weights_bounds (tree : List Built) (timevals : List Char → Option Int)
    (time : List Char → Int) (ht : ∀ c ∈ tree, timevals c.name = some (time c.name))
    (hnn : ∀ c ∈ tree, 0 ≤ time c.name) :
    scoreMaxError tree timevals = .ok (scoreOf (weights tree time)) ∧
      (∀ wd ∈ weights tree time, 0 ≤ wd.1 ∧ wd.1 ≤ 1000) ∧
      (0 < (tree.map fun c => time c.name).sum →
        1000 - (tree.length : Int) < ((weights tree time).map Prod.fst).sum ∧
          ((weights tree time).map Prod.fst).sum ≤ 1000) ∧
      ((tree.map fun c => time c.name).sum = 0 → ∀ wd ∈ weights tree time, wd.1 = 0) := by
  set T := (tree.map fun c => time c.name).sum with hTdef
  have hT0 : 0 ≤ T := List.sum_nonneg (by simpa using hnn)
  have htT : ∀ c ∈ tree, time c.name ≤ T := fun c hc =>
    List.single_le_sum (by simpa using hnn) _ (List.mem_map_of_mem _ hc)
  refine ⟨scoreMaxError_eq ht, ?_, fun hT => ?_, fun h0 => weights_of_total_zero h0 hnn⟩
  · rcases hT0.lt_or_eq with hT | hT
    · rw [weights_of_total_pos hT]
      simp only [List.mem_map]
      rintro _ ⟨c, hc, rfl⟩
      exact weight_mem_range hT (hnn c hc) (htT c hc)
    · intro wd hwd
      rw [weights_of_total_zero hT.symm hnn wd hwd]
      decide
  · rw [weights_of_total_pos hT, List.map_map]
    simp only [Function.comp_def, ← hTdef]
    have hne : tree ≠ [] := by
      rintro rfl
      simp [hTdef] at hT
    have hw : (tree.map fun c => time c.name * maxValidWeight).sum = 1000 * T := by
      rw [List.sum_map_mul_right, hTdef, mul_comm]
      rfl
    obtain ⟨hle, hlt⟩ := sum_ediv_bounds tree (fun c => time c.name * maxValidWeight) hT
    rw [hw] at hle hlt
    have := lt_of_mul_lt_mul_right (hlt hne) hT.le
    exact ⟨by omega, le_of_mul_le_mul_right hle hT⟩

theorem weights_bounds_ninety_ten :
    ∃ (tree : List Built) (time : List Char → Int),
      tree = [⟨⟨⟨900, none, 0⟩, []⟩, ⟨[], []⟩, ⟨[], []⟩, "g0".toList⟩,
        ⟨⟨⟨100, none, 0⟩, []⟩, ⟨[], []⟩, ⟨[], []⟩, "g1".toList⟩] ∧
      time = (fun n => if n = "g0".toList then 90 else 10) ∧
      scoreMaxError tree (fun n => some (time n)) = .ok (scoreOf (weights tree time)) ∧
      (∀ wd ∈ weights tree time, 0 ≤ wd.1 ∧ wd.1 ≤ 1000) ∧
      (0 < (tree.map fun c => time c.name).sum →
        1000 - (tree.length : Int) < ((weights tree time).map Prod.fst).sum ∧
          ((weights tree time).map Prod.fst).sum ≤ 1000) ∧
      ((tree.map fun c => time c.name).sum = 0 → ∀ wd ∈ weights tree time, wd.1 = 0) :=
  ⟨_, _, rfl, rfl, weights_bounds _ _ _ (fun _ _ => rfl) (by decide)⟩

end Weights

section Spec

/-- The error the spec gives container `c` of `tree` for the times `time`:
`|⌊1000 t / T⌋ - dtf|`, the floor over `ℚ`, `T` the total when positive and `1`
otherwise. -/
def specError (tree : List Built) (time : List Char → Int) (c : Built) : Int :=
  let total := (tree.map fun c => time c.name).sum
  |⌊((maxValidWeight * time c.name : Int) : ℚ) /
      ((if 0 < total then total else 1 : Int) : ℚ)⌋ - (c.dtf : Int)|

/-- Python 2 integer division by a positive number is the floor of the quotient. -/
theorem fdiv_eq_floor (a : Int) {b : Int} (hb : 0 < b) :
    Int.fdiv a b = ⌊(a : ℚ) / (b : ℚ)⌋ := by
  lift b to ℕ using hb.le
  rw [Int.fdiv_eq_ediv _ hb.le, Int.cast_natCast, Rat.floor_intCast_div_natCast]

theorem le_foldl_max (l : List Int) (m : Int) :
    m ≤ l.foldl max m ∧ ∀ x ∈ l, x ≤ l.foldl max m := by
  induction l generalizing m with
  | nil => simp
  | cons x l ih =>
      obtain ⟨h1, h2⟩ := ih (max m x)
      exact ⟨(le_max_left m x).trans h1,
        List.forall_mem_cons.2 ⟨(le_max_right m x).trans h1, h2⟩⟩

theorem foldl_max_mem (l : List Int) (m : Int) : l.foldl max m = m ∨ l.foldl max m ∈ l := by
  induction l generalizing m with
  | nil => simp
  | cons x l ih =>
      rw [List.foldl_cons]
      rcases ih (max m x) with h | h
      · rw [h]
        rcases le_total m x with hm | hm
        · simp [max_eq_right hm]
        · simp [max_eq_left hm]
      · exact .inr (List.mem_cons_of_mem x h)

section Times

variable {tree : List Built} {time : List Char → Int}

/-- For non-negative times each error of the score loop is the spec's. -/
theorem weights_specError (hnn : ∀ c ∈ tree, 0 ≤ time c.name) :
    (weights tree time).map (fun wd => |wd.1 - wd.2|) = tree.map (specError tree time) := by
  have hS : 0 ≤ (tree.map fun c => time c.name).sum :=
    List.sum_nonneg (by simpa using hnn)
  have hdiv : (if (tree.map fun c => time c.name).sum = 0 then 1
      else (tree.map fun c => time c.name).sum) = if 0 < (tree.map fun c => time c.name).sum
      then (tree.map fun c => time c.name).sum else 1 := by
    split_ifs <;> omega
  have hpos : 0 < (if 0 < (tree.map fun c => time c.name).sum
      then (tree.map fun c => time c.name).sum else 1) := by
    split_ifs <;> omega
  simp only [weights, List.map_map]
  refine List.map_congr_left fun c _ => ?_
  simp only [Function.comp, specError, hdiv, fdiv_eq_floor _ hpos, mul_comm (time c.name)]

end Times

/-- For non-negative disk times, `score_max_error` returns the largest of the spec's
errors, and `score_experiment` passes iff every error is within `allowed_err`. -/
theorem scoreMaxError_spec (tree : List Built) (timevals : List Char → Option Int)
    (time : List Char → Int) (allowedErr : Int) (hne : tree ≠ [])
    (ht : ∀ c ∈ tree, timevals c.name = some (time c.name))
    (hnn : ∀ c ∈ tree, 0 ≤ time c.name) :
    ∃ maxerr s, scoreMaxError tree timevals = .ok (maxerr, s) ∧
      (∀ c ∈ tree, specError tree time c ≤ maxerr) ∧
      (∃ c ∈ tree, specError tree time c = maxerr) ∧
      scoreExperiment tree timevals allowedErr =
        .ok (decide (∀ c ∈ tree, specError tree time c ≤ allowedErr)) := by
  have hmax := scoreOf_fst (weights tree time)
  rw [weights_specError hnn] at hmax
  obtain ⟨-, hle⟩ := le_foldl_max (tree.map (specError tree time)) 0
  have hall : ∀ c ∈ tree, specError tree time c ≤ (scoreOf (weights tree time)).1 :=
    fun c hc => hmax ▸ hle _ (List.mem_map_of_mem _ hc)
  have hmem : ∃ c ∈ tree, specError tree time c = (scoreOf (weights tree time)).1 := by
    rcases foldl_max_mem (tree.map (specError tree time)) 0 with h | h
    · obtain ⟨c, hc⟩ := List.exists_mem_of_ne_nil tree hne
      exact ⟨c, hc, le_antisymm (hall c hc) (by rw [hmax, h]; exact abs_nonneg _)⟩
    · obtain ⟨c, hc, he⟩ := List.mem_map.1 h
      exact ⟨c, hc, he.trans hmax.symm⟩
  refine ⟨_, _, scoreMaxError_eq ht, hall, hmem, ?_⟩
  obtain ⟨c, hc, he⟩ := hmem
  simp only [scoreExperiment, scoreMaxError_eq ht]
  exact congrArg Except.ok
    (decide_eq_decide.2 ⟨fun h c' hc' => (hall c' hc').trans h, fun h => he ▸ h c hc⟩)

theorem scoreMaxError_spec_ninety_ten :
    ∃ maxerr s, scoreMaxError
        [⟨⟨⟨900, none, 0⟩, []⟩, ⟨[], []⟩, ⟨[], []⟩, "g0".toList⟩,
          ⟨⟨⟨100, none, 0⟩, []⟩, ⟨[], []⟩, ⟨[], []⟩, "g1".toList⟩]
        (fun n => some (if n = "g0".toList then 90 else 10)) = .ok (maxerr, s) ∧
      (∀ c ∈ ([⟨⟨⟨900, none, 0⟩, []⟩, ⟨[], []⟩, ⟨[], []⟩, "g0".toList⟩,
          ⟨⟨⟨100, none, 0⟩, []⟩, ⟨[], []⟩, ⟨[], []⟩, "g1".toList⟩] : List Built),
        specError
          [⟨⟨⟨900, none, 0⟩, []⟩, ⟨[], []⟩, ⟨[], []⟩, "g0".toList⟩,
            ⟨⟨⟨100, none, 0⟩, []⟩, ⟨[], []⟩, ⟨[], []⟩, "g1".toList⟩]
          (fun n => if n = "g0".toList then 90 else 10) c ≤ maxerr) ∧
      (∃ c ∈ ([⟨⟨⟨900, none, 0⟩, []⟩, ⟨[], []⟩, ⟨[], []⟩, "g0".toList⟩,
          ⟨⟨⟨100, none, 0⟩, []⟩, ⟨[], []⟩, ⟨[], []⟩, "g1".toList⟩] : List Built),
        specError
          [⟨⟨⟨900, none, 0⟩, []⟩, ⟨[], []⟩, ⟨[], []⟩, "g0".toList⟩,
            ⟨⟨⟨100, none, 0⟩, []⟩, ⟨[], []⟩, ⟨[], []⟩, "g1".toList⟩]
          (fun n => if n = "g0".toList then 90 else 10) c = maxerr) ∧
      scoreExperiment
        [⟨⟨⟨900, none, 0⟩, []⟩, ⟨[], []⟩, ⟨[], []⟩, "g0".toList⟩,
          ⟨⟨⟨100, none, 0⟩, []⟩, ⟨[], []⟩, ⟨[], []⟩, "g1".toList⟩]
        (fun n => some (if n = "g0".toList then 90 else 10)) 0 =
        .ok (decide (∀ c ∈ ([⟨⟨⟨900, none, 0⟩, []⟩, ⟨[], []⟩, ⟨[], []⟩, "g0".toList⟩,
          ⟨⟨⟨100, none, 0⟩, []⟩, ⟨[], []⟩, ⟨[], []⟩, "g1".toList⟩] : List Built),
          specError
            [⟨⟨⟨900, none, 0⟩, []⟩, ⟨[], []⟩, ⟨[], []⟩, "g0".toList⟩,
              ⟨⟨⟨100, none, 0⟩, []⟩, ⟨[], []⟩, ⟨[], []⟩, "g1".toList⟩]
            (fun n => if n = "g0".toList then 90 else 10) c ≤ 0)) :=
  scoreMaxError_spec _ _ (fun n => if n = "g0".toList then 90 else 10) 0 (List.cons_ne_nil _ _)
    (fun _ _ => rfl) (by decide)

end Spec

section WeightsString

theorem intercalate_cons_eq {α : Type} (sep a : List α) (l : List (List α)) :
    sep.intercalate (a :: l) = a ++ (l.map (sep ++ ·)).flatten := by
  induction l generalizing a with
  | nil => simp [List.intercalate]
  | cons b l ih => simp_all [List.intercalate]

theorem append_flatten_map_append {α β : Type} (f : α → List β) (sep : List β) (xs : List α) :
    sep ++ (xs.map fun a => f a ++ sep).flatten = (xs.map fun a => sep ++ f a).flatten ++ sep := by
  induction xs with
  | nil => simp
  | cons y ys ih => simp only [List.map_cons, List.flatten_cons, List.append_assoc, ih]

theorem foldl_scoreAcc_fst (ws : List (Int × Int)) (acc : List Char × Int) :
    (ws.foldl scoreAcc acc).1 =
      acc.1 ++ (ws.map fun wd => pyIntStr wd.1 ++ ", ".toList).flatten := by
  induction ws generalizing acc with
  | nil => simp
  | cons wd ws ih => simp [ih, scoreAcc]

/-- `actual_weights_str`: the achieved weights, each as `'%d'`, joined by `', '`. -/
theorem scoreOf_snd (ws : List (Int × Int)) :
    (scoreOf ws).2 = ", ".toList.intercalate (ws.map fun wd => pyIntStr wd.1) := by
  cases ws with
  | nil => rfl
  | cons wd ws =>
      simp only [scoreOf]
      rw [foldl_scoreAcc_fst, List.map_cons, List.flatten_cons, List.nil_append,
        List.append_assoc, append_flatten_map_append, ← List.append_assoc,
        List.take_left' (by simp; omega), List.map_cons, intercalate_cons_eq, List.map_map]
      rfl

/-- Splitting a `', '`-joined list at `','` leaves a blank before every piece but the
first. -/
theorem splitOn_comma_space {p : List Char} {ps : List (List Char)} (hp : ',' ∉ p)
    (hps : ∀ q ∈ ps, ',' ∉ q) :
    (", ".toList.intercalate (p :: ps)).splitOn ',' = p :: ps.map (' ' :: ·) := by
  have h : ", ".toList.intercalate (p :: ps) = [','].intercalate (p :: ps.map (' ' :: ·)) := by
    simp [intercalate_cons_eq, Function.comp_def]
  rw [h, List.splitOn_intercalate _ _ ?_ (List.cons_ne_nil _ _)]
  simp only [List.mem_cons, List.mem_map, forall_eq_or_imp, forall_exists_index, and_imp]
  exact ⟨hp, fun _ q hq h => h ▸ List.not_mem_cons_of_ne_of_not_mem (by decide) (hps q hq)⟩

theorem mapM_map_except_ok {α β γ : Type} {l : List α} {h : α → γ} {f : γ → Except PyError β}
    {g : α → β} (hf : ∀ a ∈ l, f (h a) = .ok (g a)) : (l.map h).mapM f = .ok (l.map g) := by
  induction l with
  | nil => rfl
  | cons a l ih =>
      rw [List.map_cons, List.mapM_cons, hf a (List.mem_cons_self a l),
        ih fun b hb => hf b (List.mem_cons_of_mem a hb)]
      rfl

/-- The achieved weights `score_experiment` logs read back, in container order, as
`[int(x) for x in actual_weights.split(',')]`. -/
theorem scoreMaxError_weights_readBack {tree : List Built} {timevals : List Char → Option Int}
    {time : List Char → Int} (ht : ∀ c ∈ tree, timevals c.name = some (time c.name))
    (hne : tree ≠ []) :
    ∃ maxerr s, scoreMaxError tree timevals = .ok (maxerr, s) ∧
      (s.splitOn ',').mapM pyInt = .ok ((weights tree time).map Prod.fst) := by
  refine ⟨_, (scoreOf (weights tree time)).2, scoreMaxError_eq ht, ?_⟩
  obtain ⟨wd, ws, hws⟩ : ∃ wd ws, weights tree time = wd :: ws := by
    cases h : weights tree time with
    | nil => exact absurd (List.map_eq_nil_iff.mp h) hne
    | cons wd ws => exact ⟨wd, ws, rfl⟩
  rw [hws, scoreOf_snd, List.map_cons, splitOn_comma_space (comma_not_mem_pyIntStr _)
    (List.forall_mem_map.mpr fun wd _ => comma_not_mem_pyIntStr wd.1), List.mapM_cons,
    pyInt_pyIntStr]
  simp only [List.map_map, Function.comp_def]
  rw [mapM_map_except_ok fun wd _ => pyInt_blanks_pyIntStr (w := [' ']) (by decide) wd.1]
  rfl

theorem scoreMaxError_weights_readBack_ninety_ten :
    ∃ maxerr s, scoreMaxError
        [⟨⟨⟨900, none, 0⟩, []⟩, ⟨[], []⟩, ⟨[], []⟩, "g0".toList⟩,
          ⟨⟨⟨100, none, 0⟩, []⟩, ⟨[], []⟩, ⟨[], []⟩, "g1".toList⟩]
        (fun n => some (if n = "g0".toList then 90 else 10)) = .ok (maxerr, s) ∧
      (s.splitOn ',').mapM pyInt = .ok
        ((weights [⟨⟨⟨900, none, 0⟩, []⟩, ⟨[], []⟩, ⟨[], []⟩, "g0".toList⟩,
          ⟨⟨⟨100, none, 0⟩, []⟩, ⟨[], []⟩, ⟨[], []⟩, "g1".toList⟩]
          (fun n => if n = "g0".toList then 90 else 10)).map Prod.fst) :=
  scoreMaxError_weights_readBack (fun _ _ => rfl) (List.cons_ne_nil _ _)

end WeightsString

section KeyErrors

theorem foldlM_addTime_error {tree : List Built} {timevals : List Char → Option Int} {b : Int}
    {e : PyError} :
    tree.foldlM (addTime timevals) b = .error e ↔
      ∃ c, tree.find? (fun c => (timevals c.name).isNone) = some c ∧ e = .keyError c.name := by
  induction tree generalizing b with
  | nil => simp [List.foldlM, pure, Except.pure]
  | cons c tree ih =>
      cases hc : timevals c.name with
      | none => simp [addTime, lookupTime, hc, eq_comm, bind, Except.bind]
      | some t => simp [addTime, lookupTime, hc, ih, bind, Except.bind, pure, Except.pure]

/-- `score_max_error` raises only the `KeyError` of the first container, in tree order,
without a time. -/
theorem scoreMaxError_error {tree : List Built} {timevals : List Char → Option Int}
    {e : PyError} :
    scoreMaxError tree timevals = .error e ↔
      ∃ c, tree.find? (fun c => (timevals c.name).isNone) = some c ∧ e = .keyError c.name := by
  rw [← foldlM_addTime_error (b := 0)]
  cases hT : tree.foldlM (addTime timevals) 0 with
  | error e' => simp [scoreMaxError, hT, bind, Except.bind]
  | ok T =>
      have ht : ∀ c ∈ tree, timevals c.name = some ((timevals c.name).getD 0) := by
        intro c hc
        cases h : timevals c.name with
        | some t => rfl
        | none =>
            have hfind : (tree.find? fun c => (timevals c.name).isNone).isSome :=
              List.find?_isSome.mpr ⟨c, hc, by simp [h]⟩
            obtain ⟨c', hc'⟩ := Option.isSome_iff_exists.mp hfind
            cases hT.symm.trans (foldlM_addTime_error.mpr ⟨c', hc', rfl⟩)
      simp [@scoreMaxError_eq tree timevals (fun n => (timevals n).getD 0) ht]

theorem scoreExperiment_error {exper : List Built} {timevals : List Char → Option Int}
    {allowedErr : Int} {e : PyError} :
    scoreExperiment exper timevals allowedErr = .error e ↔
      scoreMaxError exper timevals = .error e := by
  cases h : scoreMaxError exper timevals <;>
    simp [scoreExperiment, h, bind, Except.bind, pure, Except.pure]

section Measured

variable (env : Env)

/-- After `measure_containers` from the empty `timevals = {}`, a name has a time exactly
when some container of that name has a line for the device in its `blkio.time`, and
`score_experiment` raises exactly when a container's name has none, and then the `KeyError`
of the first such container. -/
theorem measureContainers_scoreExperiment {exper : List Built} {device : List Char}
    {timevals : List Char → Option Int} {h h' : Host} (allowedErr : Int) (e : PyError)
    (hm : measureContainers env exper device (fun _ => none) h = .ok timevals h') :
    (∀ n, (timevals n).isSome = timedBy env device exper n) ∧
      (scoreExperiment exper timevals allowedErr = .error e ↔
        ∃ c, exper.find? (fun c => !timedBy env device exper c.name) = some c ∧
          e = .keyError c.name) := by
  have hs : ∀ n, (timevals n).isSome = timedBy env device exper n := fun n => by
    simpa using (measureContainers_ok env hm).2 n
  have hp : (fun c : Built => (timevals c.name).isNone) =
      fun c => !timedBy env device exper c.name := by
    funext c
    rw [← hs c.name]
    cases timevals c.name <;> rfl
  exact ⟨hs, by rw [scoreExperiment_error, scoreMaxError_error, hp]⟩

theorem measureContainers_scoreExperiment_g1 :
    ∃ timevals h', measureContainers (sampleEnv (fun _ _ => none) fun cg =>
          if cg.path = "/c0".toList then ["8:16 120".toList] else ["8:0 7".toList])
        [⟨⟨⟨500, none, 0⟩, []⟩, ⟨"blkio".toList, "/c0".toList⟩, ⟨"blkio".toList, "/c0".toList⟩,
          "g0".toList⟩,
          ⟨⟨⟨500, none, 0⟩, []⟩, ⟨"blkio".toList, "/c1".toList⟩, ⟨"blkio".toList, "/c1".toList⟩,
          "g1".toList⟩]
        "8:16".toList (fun _ => none) sampleHost = .ok timevals h' ∧
      (∀ n, (timevals n).isSome = timedBy (sampleEnv (fun _ _ => none) fun cg =>
          if cg.path = "/c0".toList then ["8:16 120".toList] else ["8:0 7".toList])
        "8:16".toList
        [⟨⟨⟨500, none, 0⟩, []⟩, ⟨"blkio".toList, "/c0".toList⟩, ⟨"blkio".toList, "/c0".toList⟩,
          "g0".toList⟩,
          ⟨⟨⟨500, none, 0⟩, []⟩, ⟨"blkio".toList, "/c1".toList⟩, ⟨"blkio".toList, "/c1".toList⟩,
          "g1".toList⟩] n) ∧
      (scoreExperiment
          [⟨⟨⟨500, none, 0⟩, []⟩, ⟨"blkio".toList, "/c0".toList⟩, ⟨"blkio".toList, "/c0".toList⟩,
            "g0".toList⟩,
            ⟨⟨⟨500, none, 0⟩, []⟩, ⟨"blkio".toList, "/c1".toList⟩, ⟨"blkio".toList, "/c1".toList⟩,
            "g1".toList⟩] timevals 0 = .error (.keyError "g1".toList) ↔
        ∃ c : Built, List.find? (fun c : Built => !timedBy (sampleEnv (fun _ _ => none) fun cg =>
          if cg.path = "/c0".toList then ["8:16 120".toList] else ["8:0 7".toList])
          "8:16".toList
          [⟨⟨⟨500, none, 0⟩, []⟩, ⟨"blkio".toList, "/c0".toList⟩, ⟨"blkio".toList, "/c0".toList⟩,
            "g0".toList⟩,
            ⟨⟨⟨500, none, 0⟩, []⟩, ⟨"blkio".toList, "/c1".toList⟩, ⟨"blkio".toList, "/c1".toList⟩,
            "g1".toList⟩] c.name)
          [⟨⟨⟨500, none, 0⟩, []⟩, ⟨"blkio".toList, "/c0".toList⟩, ⟨"blkio".toList, "/c0".toList⟩,
            "g0".toList⟩,
            ⟨⟨⟨500, none, 0⟩, []⟩, ⟨"blkio".toList, "/c1".toList⟩, ⟨"blkio".toList, "/c1".toList⟩,
            "g1".toList⟩] = some c ∧ PyError.keyError "g1".toList = .keyError c.name) :=
  ⟨_, _, rfl, @measureContainers_scoreExperiment _ _ _ _ sampleHost _ 0 _ rfl⟩

end Measured

end KeyErrors

end BlkcgroupTest
