import MinicoreRuntime.Model.Response
import Mathlib.Algebra.BigOperators.Group.List.Basic
import Mathlib.Algebra.Order.Group.Nat

/-!
# Usage totals

The token usage of a loop is added up in place, one request after the other. Each of its six counts
is a number of 64 bits that a provider may leave out. What the accumulator ends with is described
without a run of it: by which counts were reported, and by their sum.

## Main definitions

* `UsageField`, `Usage.get`: the six counts.
* `UsageAccumulator.addInPlace`, `UsageAccumulator.addEach`: additions that leave the accumulator
  behind.
* `reportedSum`, `IsTotal`: what a total is.

## Main results

* `sumUsage_isTotal`: the sum of two usages is their total, and fails where a count overflows.
* `addEach_total`: what a run of additions leaves.
* `usage_totals`: the totals are exact and independent of the order.
-/

namespace MinicoreRuntime

/-! ### The six counts -/

/-- The counts of a usage. -/
inductive UsageField where
  | input
  | output
  | reasoning
  | cacheRead
  | cacheWrite
  | providerTotal
deriving DecidableEq, Repr

/-- One count of a usage. -/
def Usage.get (usage : Usage) : UsageField → Option UInt64
  | .input => usage.inputTokens
  | .output => usage.outputTokens
  | .reasoning => usage.reasoningTokens
  | .cacheRead => usage.cacheReadTokens
  | .cacheWrite => usage.cacheWriteTokens
  | .providerTotal => usage.providerTotalTokens

/-- A usage is its six counts. -/
theorem Usage.ext_get {left right : Usage} (h : ∀ field, left.get field = right.get field) :
    left = right := by
  obtain ⟨_, _, _, _, _, _⟩ := left
  obtain ⟨_, _, _, _, _, _⟩ := right
  simp only [Usage.mk.injEq]
  exact ⟨h .input, h .output, h .reasoning, h .cacheRead, h .cacheWrite, h .providerTotal⟩

@[simp]
theorem Usage.get_default (field : UsageField) : Usage.default.get field = none := by
  cases field <;> rfl

/-- A sum of usages is a sum of each count. -/
theorem sumUsage_eq_some {left right total : Usage} :
    sumUsage left right = some total ↔
      ∀ field, sumField (left.get field) (right.get field) = some (total.get field) := by
  constructor
  · -- Every field was added.
    intro h field
    simp only [sumUsage, Option.bind_eq_bind, Option.bind_eq_some_iff] at h
    obtain ⟨a, ha, b, hb, c, hc, d, hd, e, he, f, hf, htotal⟩ := h
    obtain rfl := Option.some.inj htotal
    cases field with
    | input => exact ha
    | output => exact hb
    | reasoning => exact hc
    | cacheRead => exact hd
    | cacheWrite => exact he
    | providerTotal => exact hf
  · intro h
    have hinput : sumField left.inputTokens right.inputTokens = _ := h .input
    have houtput : sumField left.outputTokens right.outputTokens = _ := h .output
    have hreasoning : sumField left.reasoningTokens right.reasoningTokens = _ := h .reasoning
    have hread : sumField left.cacheReadTokens right.cacheReadTokens = _ := h .cacheRead
    have hwrite : sumField left.cacheWriteTokens right.cacheWriteTokens = _ := h .cacheWrite
    have hprovider : sumField left.providerTotalTokens right.providerTotalTokens = _ :=
      h .providerTotal
    simp only [sumUsage, hinput, houtput, hreasoning, hread, hwrite, hprovider,
      Option.bind_eq_bind, Option.bind_some]
    rfl

/-! ### Totals -/

/-- The sum of the reported values of a count. -/
def reportedSum (field : UsageField) (values : List Usage) : Nat :=
  ((values.filterMap fun value ↦ value.get field).map UInt64.toNat).sum

@[simp]
theorem reportedSum_nil (field : UsageField) : reportedSum field [] = 0 := rfl

theorem reportedSum_cons (field : UsageField) (value : Usage) (values : List Usage) :
    reportedSum field (value :: values) =
      ((value.get field).elim 0 UInt64.toNat) + reportedSum field values := by
  unfold reportedSum
  cases h : value.get field <;> simp [h]

theorem reportedSum_perm {field : UsageField} {values values' : List Usage}
    (h : values.Perm values') : reportedSum field values = reportedSum field values' :=
  ((h.filterMap _).map _).sum_eq

/-- The usage has a count if and only if one of the values reports it, and the count is the exact
sum of those reported. -/
def IsTotal (total : Usage) (values : List Usage) : Prop :=
  ∀ field, (total.get field = none ↔ ∀ value ∈ values, value.get field = none) ∧
    ∀ count, total.get field = some count → count.toNat = reportedSum field values

namespace IsTotal

variable {total total' : Usage} {values : List Usage}

/-- There is at most one total. -/
theorem unique (h : IsTotal total values) (h' : IsTotal total' values) : total = total' := by
  apply Usage.ext_get
  intro field
  cases hcount : total.get field with
  | none => exact ((h' field).1.mpr ((h field).1.mp hcount)).symm
  | some count =>
    cases hcount' : total'.get field with
    | none =>
      have hnone := (h field).1.mpr ((h' field).1.mp hcount')
      rw [hcount] at hnone
      exact absurd hnone (by simp)
    | some count' =>
      congr 1
      apply UInt64.toNat_inj.mp
      exact ((h field).2 _ hcount).trans ((h' field).2 _ hcount').symm

theorem perm (h : IsTotal total values) {values' : List Usage} (hperm : values.Perm values') :
    IsTotal total values' := by
  intro field
  obtain ⟨hnone, hsum⟩ := h field
  refine ⟨hnone.trans ?_, fun count hcount ↦ (hsum count hcount).trans (reportedSum_perm hperm)⟩
  exact forall_congr' fun value ↦ by rw [hperm.mem_iff]

/-- A usage is the total of itself. -/
theorem single (usage : Usage) : IsTotal usage [usage] := by
  intro field
  refine ⟨by simp, fun count hcount ↦ ?_⟩
  simp [reportedSum_cons, hcount]

/-- The sum of the total is the sum of the values. -/
theorem elim_get (h : IsTotal total values) (field : UsageField) :
    (total.get field).elim 0 UInt64.toNat = reportedSum field values := by
  obtain ⟨hnone, hsum⟩ := h field
  cases hcount : total.get field with
  | some count => exact hsum count hcount
  | none =>
    have hempty : values.filterMap (fun value ↦ value.get field) = [] :=
      List.filterMap_eq_nil_iff.mpr (hnone.mp hcount)
    simp [reportedSum, hempty]

/-- A part of the values may be replaced by its total. -/
theorem reportedSum_append (h : IsTotal total values) (field : UsageField) (rest : List Usage) :
    reportedSum field (total :: rest) = reportedSum field (values ++ rest) := by
  rw [reportedSum_cons, h.elim_get]
  simp [reportedSum]

theorem append (h : IsTotal total values) {rest : List Usage}
    (h' : IsTotal total' (total :: rest)) : IsTotal total' (values ++ rest) := by
  intro field
  obtain ⟨hnone, hsum⟩ := h' field
  rw [List.forall_mem_cons, (h field).1] at hnone
  refine ⟨by rw [hnone, List.forall_mem_append], fun count hcount ↦ ?_⟩
  rw [hsum count hcount, h.reportedSum_append]

end IsTotal

/-- The sum of two counts: none if both are missing, and exact. -/
theorem sumField_eq_some {left right total : Option UInt64} :
    sumField left right = some total ↔
      left.elim 0 UInt64.toNat + right.elim 0 UInt64.toNat < 2 ^ 64 ∧
        (total = none ↔ left = none ∧ right = none) ∧
        ∀ count, total = some count →
          count.toNat = left.elim 0 UInt64.toNat + right.elim 0 UInt64.toNat := by
  -- A sum of two counts can overflow; a single count stays as it is.
  rcases left with - | left <;> rcases right with - | right
  · simp only [sumField, Option.or_none, Option.some.injEq, Option.elim_none, and_self, iff_true]
    constructor
    · rintro rfl
      simp
    · exact fun h ↦ h.2.1.symm
  · have hright := right.toNat_lt
    simp only [sumField, Option.none_or, Option.some.injEq, Option.elim_none, Option.elim_some]
    constructor
    · rintro rfl
      simpa using hright
    · rintro ⟨-, hnone, hsum⟩
      cases total with
      | none => exact absurd (hnone.mp rfl).2 (by simp)
      | some count => exact congrArg some (UInt64.toNat_inj.mp (by simpa using (hsum _ rfl).symm))
  · have hleft := left.toNat_lt
    simp only [sumField, Option.or_none, Option.some.injEq, Option.elim_none, Option.elim_some]
    constructor
    · rintro rfl
      simpa using hleft
    · rintro ⟨-, hnone, hsum⟩
      cases total with
      | none => exact absurd (hnone.mp rfl).1 (by simp)
      | some count => exact congrArg some (UInt64.toNat_inj.mp (by simpa using (hsum _ rfl).symm))
  · simp only [sumField, Option.elim_some]
    by_cases hfits : left.toNat + right.toNat < 2 ^ 64
    · have hadd : (left + right).toNat = left.toNat + right.toNat := by
        rw [UInt64.toNat_add, Nat.mod_eq_of_lt hfits]
      simp only [hfits, if_true, Option.some.injEq, true_and]
      constructor
      · rintro rfl
        simp [hadd]
      · rintro ⟨hnone, hsum⟩
        cases total with
        | none => exact absurd (hnone.mp rfl).1 (by simp)
        | some count => exact congrArg some (UInt64.toNat_inj.mp (hadd.trans (hsum _ rfl).symm))
    · rw [if_neg hfits]
      exact iff_of_false (by simp) fun h ↦ hfits h.1

/-- The sum of two usages is their total, and is defined where no count overflows. -/
theorem sumUsage_isTotal {left right total : Usage} :
    sumUsage left right = some total ↔
      (∀ field, reportedSum field [left, right] < 2 ^ 64) ∧ IsTotal total [left, right] := by
  simp only [sumUsage_eq_some, sumField_eq_some, forall_and, IsTotal, reportedSum_cons,
    reportedSum_nil, Nat.add_zero, List.mem_cons, List.not_mem_nil, or_false, forall_eq_or_imp,
    forall_eq]

/-- Where no count overflows, there is a sum. -/
theorem exists_sumUsage {left right : Usage}
    (h : ∀ field, reportedSum field [left, right] < 2 ^ 64) :
    ∃ total, sumUsage left right = some total := by
  have hfield : ∀ field, ∃ total, sumField (left.get field) (right.get field) = some total := by
    intro field
    have hsum := h field
    simp only [reportedSum_cons, reportedSum_nil, Nat.add_zero] at hsum
    unfold sumField
    split
    · simp_all
    · exact ⟨_, rfl⟩
  choose count hcount using hfield
  refine ⟨⟨count .input, count .output, count .reasoning, count .cacheRead, count .cacheWrite,
    count .providerTotal⟩, sumUsage_eq_some.mpr fun field ↦ ?_⟩
  rw [hcount field]
  cases field <;> rfl

/-! ### Runs of additions -/

namespace UsageAccumulator

/-- Add the usage of a request in place. The accumulator is assigned once all six sums are there. -/
def addInPlace (acc : UsageAccumulator) (value : Usage) : Except Unit Unit × UsageAccumulator :=
  match acc.add value with
  | some acc => (.ok (), acc)
  | none => (.error (), acc)

/-- Add usages one after the other; the results are those of the additions. -/
def addEach (acc : UsageAccumulator) : List Usage → List (Except Unit Unit) × UsageAccumulator
  | [] => ([], acc)
  | value :: values =>
    let (result, acc) := acc.addInPlace value
    let (results, acc) := acc.addEach values
    (result :: results, acc)

/-- Every addition succeeds. -/
def Succeeds (acc : UsageAccumulator) (values : List Usage) : Prop :=
  ∀ result ∈ (acc.addEach values).1, result = .ok ()

variable {acc acc' : UsageAccumulator} {value : Usage}

theorem addInPlace_of_some {total : Usage} (h : sumUsage acc.value value = some total) :
    acc.addInPlace value = (.ok (), ⟨total⟩) := by
  simp [addInPlace, add, h]

theorem addInPlace_of_none (h : sumUsage acc.value value = none) :
    acc.addInPlace value = (.error (), acc) := by
  simp [addInPlace, add, h]

theorem addEach_cons (acc : UsageAccumulator) (value : Usage) (values : List Usage) :
    acc.addEach (value :: values) =
      ((acc.addInPlace value).1 :: ((acc.addInPlace value).2.addEach values).1,
        ((acc.addInPlace value).2.addEach values).2) := rfl

/-- What a run of additions leaves: the total of what was there and what was added. -/
theorem addEach_total (acc : UsageAccumulator) (values : List Usage) :
    (acc.Succeeds values ↔ ∀ field, reportedSum field (acc.value :: values) < 2 ^ 64) ∧
      (acc.Succeeds values → IsTotal (acc.addEach values).2.finish (acc.value :: values)) := by
  induction values generalizing acc with
  | nil =>
    refine ⟨⟨fun _ field ↦ ?_, fun _ ↦ by simp [Succeeds, addEach]⟩, fun _ ↦ IsTotal.single _⟩
    rw [reportedSum_cons, reportedSum_nil, Nat.add_zero]
    cases acc.value.get field with
    | none => simp
    | some count => exact count.toNat_lt
  | cons value values ih =>
    have hsplit (field : UsageField) : reportedSum field (acc.value :: value :: values) =
        reportedSum field [acc.value, value] + reportedSum field values := by
      simp only [reportedSum_cons, reportedSum_nil]
      omega
    cases hsum : sumUsage acc.value value with
    | none =>
      -- The first addition fails, so a count overflows already.
      have hover : ¬ ∀ field, reportedSum field (acc.value :: value :: values) < 2 ^ 64 := by
        intro hfits
        have hpair (field : UsageField) : reportedSum field [acc.value, value] < 2 ^ 64 := by
          have hlt := hfits field
          rw [hsplit] at hlt
          omega
        obtain ⟨total, htotal⟩ := exists_sumUsage hpair
        rw [hsum] at htotal
        exact absurd htotal (by simp)
      have hfails : ¬ acc.Succeeds (value :: values) := by
        intro hsucceeds
        have hfirst := hsucceeds _ (by rw [addEach_cons]; exact List.mem_cons_self)
        rw [addInPlace_of_none hsum] at hfirst
        exact absurd hfirst (by simp)
      exact ⟨iff_of_false hfails hover, fun h ↦ absurd h hfails⟩
    | some total =>
      -- The run goes on from the total of the first two.
      obtain ⟨hfits, htotal⟩ := sumUsage_isTotal.mp hsum
      have hrest : acc.Succeeds (value :: values) ↔ Succeeds ⟨total⟩ values := by
        simp [Succeeds, addEach_cons, addInPlace_of_some hsum]
      have hsums (field : UsageField) : reportedSum field (total :: values) =
          reportedSum field (acc.value :: value :: values) := htotal.reportedSum_append field values
      obtain ⟨hiff, hend⟩ := ih ⟨total⟩
      refine ⟨?_, fun h ↦ ?_⟩
      · rw [hrest, hiff]
        exact forall_congr' fun field ↦ by rw [hsums]
      · have hfinish := hend (hrest.mp h)
        rw [addEach_cons, addInPlace_of_some hsum]
        exact htotal.append hfinish

end UsageAccumulator

/-- The totals of a loop. All additions succeed if and only if no count overflows 64 bits, the
counts are then exact, neither depends on the order of the requests, and an addition that fails
leaves the accumulator alone. -/
theorem usage_totals (values : List Usage) :
    (UsageAccumulator.default.Succeeds values ↔ ∀ field, reportedSum field values < 2 ^ 64) ∧
      (UsageAccumulator.default.Succeeds values →
        IsTotal (UsageAccumulator.default.addEach values).2.finish values) ∧
      (∀ values' : List Usage, values.Perm values' →
        (UsageAccumulator.default.Succeeds values ↔ UsageAccumulator.default.Succeeds values') ∧
        (UsageAccumulator.default.Succeeds values →
          (UsageAccumulator.default.addEach values).2.finish =
            (UsageAccumulator.default.addEach values').2.finish)) ∧
      ∀ (acc : UsageAccumulator) (value : Usage), (acc.addInPlace value).1 = .error () →
        (acc.addInPlace value).2 = acc := by
  -- The empty total adds nothing.
  have hsum (field : UsageField) (values : List Usage) :
      reportedSum field (UsageAccumulator.default.value :: values) = reportedSum field values := by
    simp [reportedSum_cons, UsageAccumulator.default]
  have hsucceeds (values : List Usage) : UsageAccumulator.default.Succeeds values ↔
      ∀ field, reportedSum field values < 2 ^ 64 := by
    rw [(UsageAccumulator.addEach_total _ values).1]
    exact forall_congr' fun field ↦ by rw [hsum]
  have htotal (values : List Usage) (h : UsageAccumulator.default.Succeeds values) :
      IsTotal (UsageAccumulator.default.addEach values).2.finish values := by
    intro field
    have hfield := (UsageAccumulator.addEach_total _ values).2 h field
    have hdefault : UsageAccumulator.default.value.get field = none := Usage.get_default field
    rwa [hsum, List.forall_mem_cons, and_iff_right hdefault] at hfield
  refine ⟨hsucceeds values, htotal values, fun values' hperm ↦ ?_, fun acc value hfails ↦ ?_⟩
  · have hiff : UsageAccumulator.default.Succeeds values ↔
        UsageAccumulator.default.Succeeds values' := by
      rw [hsucceeds, hsucceeds]
      exact forall_congr' fun field ↦ by rw [reportedSum_perm hperm]
    refine ⟨hiff, fun h ↦ ?_⟩
    apply ((htotal values h).perm hperm).unique
    exact htotal values' (hiff.mp h)
  · cases hadd : sumUsage acc.value value with
    | none => rw [UsageAccumulator.addInPlace_of_none hadd]
    | some total =>
      rw [UsageAccumulator.addInPlace_of_some hadd] at hfails
      exact absurd hfails (by simp)

namespace UsageSample

/-- A request that reports input tokens only, with some of them read from a cache. -/
def input : Usage := ⟨some 2, none, none, some 3, none, none⟩

/-- A request that reports output tokens only. -/
def output : Usage := ⟨none, some 4, none, none, none, none⟩

/-- A request that reports nearly as many tokens as fit. -/
def large : Usage := ⟨some 18446744073709551615, none, none, none, none, none⟩

end UsageSample

/-- The theorem at three requests, and at two whose input tokens do not fit. -/
theorem usage_totals_sample :
    IsTotal (UsageAccumulator.default.addEach
        [UsageSample.input, .default, UsageSample.output]).2.finish
      [UsageSample.input, .default, UsageSample.output] ∧
    ¬ UsageAccumulator.default.Succeeds [UsageSample.input, UsageSample.large] := by
  refine ⟨(usage_totals _).2.1 ((usage_totals _).1.mpr fun field ↦ ?_), fun hsucceeds ↦ ?_⟩
  · cases field <;> decide
  · exact absurd ((usage_totals _).1.mp hsucceeds .input) (by decide)

end MinicoreRuntime
