import Mathlib.Algebra.BigOperators.Ring.List
import Mathlib.Algebra.Order.BigOperators.Group.List
import Mathlib.Data.Finset.Max
import PolicyDesk.Evaluation
import PolicyDesk.Proofs.Evaluation.Recommendation
import PolicyDesk.Proofs.Evaluation.Scoring
import PolicyDesk.Proofs.Quantity

/-!
# Composite scores of exact numbers

The mean that a composite score rounds, the shares that it is broken into and the band that it
falls in. Numbers are exact here, so that rounding to hundredths is the only rounding.
-/

namespace PolicyDesk

/-! ## Weighted means of exact scores

The mean of the scores of a list of factors, before it is rounded (`weightedMean`).

- **Bounds** (`exists_score_le_mean`, `exists_mean_le_score`): one of the scores is no greater than
  the mean, and one is no smaller.
- **Composite score** (`composite_eq`): it is the mean in hundredths, which needs no clamping. -/

section

open Quantity (whole total hundredths whole_rat whole_zero_rat)

/-- The weighted mean of the scores, before it is rounded. It is used where the total weight is
positive. -/
def weightedMean (fs : List (Factor Rat)) : Rat := weightedSum fs / totalWeight fs

section

variable {fs : List (Factor Rat)} {c : Rat}

theorem Weight.nonneg (w : Weight Rat) : 0 ≤ w.value := whole_zero_rat ▸ w.inRange.2.1

theorem Score.nonneg (s : Score Rat) : 0 ≤ s.value := whole_zero_rat ▸ s.inRange.2.1

theorem Score.le_hundred (s : Score Rat) : s.value ≤ (100 : Nat) := whole_rat 100 ▸ s.inRange.2.2

private theorem mul_totalWeight (c : Rat) (fs : List (Factor Rat)) :
    c * totalWeight fs = (fs.map fun f => c * f.weight.value).sum := by
  rw [totalWeight, total_rat, List.sum_map_mul_left]

theorem le_weightedMean (hpos : 0 < totalWeight fs) (h : ∀ f ∈ fs, c ≤ f.score.value) :
    c ≤ weightedMean fs := by
  rw [weightedMean, le_div_iff₀ hpos, mul_totalWeight, weightedSum, total_rat]
  exact List.sum_le_sum fun f hf => mul_le_mul_of_nonneg_right (h f hf) f.weight.nonneg

theorem weightedMean_le (hpos : 0 < totalWeight fs) (h : ∀ f ∈ fs, f.score.value ≤ c) :
    weightedMean fs ≤ c := by
  rw [weightedMean, div_le_iff₀ hpos, mul_totalWeight, weightedSum, total_rat]
  exact List.sum_le_sum fun f hf => mul_le_mul_of_nonneg_right (h f hf) f.weight.nonneg

private theorem nonempty_of_totalWeight (hpos : 0 < totalWeight fs) : fs.toFinset.Nonempty := by
  rw [List.toFinset_nonempty_iff]
  rintro rfl
  rw [totalWeight, List.map_nil, total_rat, List.sum_nil] at hpos
  exact lt_irrefl 0 hpos

/-- One of the scores is no greater than their mean. -/
theorem exists_score_le_mean (hpos : 0 < totalWeight fs) :
    ∃ f ∈ fs, f.score.value ≤ weightedMean fs := by
  obtain ⟨f, hf, hleast⟩ :=
    fs.toFinset.exists_min_image (·.score.value) (nonempty_of_totalWeight hpos)
  simp only [List.mem_toFinset] at hf hleast
  exact ⟨f, hf, le_weightedMean hpos hleast⟩

/-- One of the scores is no smaller than their mean. -/
theorem exists_mean_le_score (hpos : 0 < totalWeight fs) :
    ∃ f ∈ fs, weightedMean fs ≤ f.score.value := by
  obtain ⟨f, hf, hgreatest⟩ :=
    fs.toFinset.exists_max_image (·.score.value) (nonempty_of_totalWeight hpos)
  simp only [List.mem_toFinset] at hf hgreatest
  exact ⟨f, hf, weightedMean_le hpos hgreatest⟩

theorem weightedMean_nonneg (hpos : 0 < totalWeight fs) : 0 ≤ weightedMean fs :=
  le_weightedMean hpos fun f _ => f.score.nonneg

/-- A mean of scores needs no clamping. Rounding stays within zero and one hundred, as both are
whole. -/
theorem composite_eq (hpos : 0 < totalWeight fs) : composite fs = hundredths (weightedMean fs) := by
  have hmean := weightedMean_nonneg hpos
  have hlow : ¬ hundredths (weightedMean fs) < (whole 0 : Rat) := by
    rw [whole_rat, not_lt, le_hundredths_iff hmean, Nat.cast_zero]
    linarith
  have hhigh : ¬ (whole 100 : Rat) < hundredths (weightedMean fs) := by
    rw [whole_rat, not_lt]
    exact hundredths_le_natCast hmean (weightedMean_le hpos fun f _ => f.score.le_hundred)
  show Quantity.clamp (whole 0) (whole 100) (hundredths (weightedMean fs)) = _
  rw [Quantity.clamp, if_neg hlow, if_neg hhigh]

end

end

/-! ## The shares of a composite score

An evaluation breaks the composite score into one share for each factor. Both are rounded to
hundredths, each on its own. Numbers are exact here, so that this rounding is the only one.

- **Exact shares** (`exactShare`): before they are rounded the shares add up to the weighted mean
  (`sum_exactShare`), and none is greater than the score of its factor (`exactShare_le_score`).
- **Reported shares** (`ScoreComponent.ShareOf`): a share is at least zero and at most the score of
  its factor in hundredths (`contribution_bounds`), and without weights it is zero
  (`contribution_of_weightless`).
- **Totals** (`abs_sum_contribution_sub_le`): each rounding costs half a hundredth at most, so the
  shares add up to the composite score but for half a hundredth each, and one for itself. The
  shares of three equal scores may add up to more than the composite score. -/

section

open Quantity (hundredths whole_zero_rat)

variable {fs : List (Factor Rat)} {f : Factor Rat}

/-! ### Exact shares -/

/-- The share of a factor in the weighted mean, before it is rounded. -/
def exactShare (fs : List (Factor Rat)) (f : Factor Rat) : Rat :=
  f.score.value * f.weight.value / totalWeight fs

theorem totalWeight_rat (fs : List (Factor Rat)) :
    totalWeight fs = (fs.map (·.weight.value)).sum := by
  rw [totalWeight, total_rat]

private theorem totalWeight_nonneg (fs : List (Factor Rat)) : 0 ≤ totalWeight fs := by
  rw [totalWeight_rat]
  apply List.sum_nonneg
  intro x hx
  obtain ⟨f, -, rfl⟩ := List.mem_map.mp hx
  exact f.weight.nonneg

private theorem weight_le_total (hf : f ∈ fs) : f.weight.value ≤ totalWeight fs := by
  rw [totalWeight_rat]
  refine List.single_le_sum ?_ _ (List.mem_map_of_mem hf)
  intro x hx
  obtain ⟨g, -, rfl⟩ := List.mem_map.mp hx
  exact g.weight.nonneg

private theorem exactShare_nonneg (fs : List (Factor Rat)) (f : Factor Rat) : 0 ≤ exactShare fs f :=
  div_nonneg (mul_nonneg f.score.nonneg f.weight.nonneg) (totalWeight_nonneg fs)

theorem exactShare_le_score (hpos : 0 < totalWeight fs) (hf : f ∈ fs) :
    exactShare fs f ≤ f.score.value := by
  rw [exactShare, div_le_iff₀ hpos]
  exact mul_le_mul_of_nonneg_left (weight_le_total hf) f.score.nonneg

/-- The exact shares add up to the weighted mean. They share the factor of one over the total
weight. -/
theorem sum_exactShare (fs : List (Factor Rat)) :
    (fs.map (exactShare fs)).sum = weightedMean fs := by
  have hshares : fs.map (exactShare fs) =
      fs.map fun f => f.score.value * f.weight.value * (totalWeight fs)⁻¹ :=
    List.map_congr_left fun f _ => div_eq_mul_inv _ _
  rw [hshares, List.sum_map_mul_right, weightedMean, weightedSum, total_rat, div_eq_mul_inv]

/-! ### Reported shares -/

private theorem contribution_of_pos (hpos : 0 < totalWeight fs) (f : Factor Rat) :
    contribution (totalWeight fs) f = hundredths (exactShare fs f) := by
  unfold contribution
  rw [if_pos (by rwa [whole_zero_rat]), exactShare]

/-- Without weights there is nothing to share. -/
theorem contribution_of_weightless (hzero : totalWeight fs = 0) (f : Factor Rat) :
    contribution (totalWeight fs) f = 0 := by
  unfold contribution
  rw [if_neg (by simp [whole_zero_rat, hzero]), whole_zero_rat]

/-- A share is at least zero and at most the score in hundredths. -/
theorem contribution_bounds (hf : f ∈ fs) :
    0 ≤ contribution (totalWeight fs) f ∧
      contribution (totalWeight fs) f ≤ hundredths f.score.value := by
  rcases (totalWeight_nonneg fs).lt_or_eq with hpos | hzero
  · rw [contribution_of_pos hpos]
    have hshare := exactShare_nonneg fs f
    exact ⟨hundredths_nonneg hshare, hundredths_mono hshare (exactShare_le_score hpos hf)⟩
  · rw [contribution_of_weightless hzero.symm]
    exact ⟨le_rfl, hundredths_nonneg f.score.nonneg⟩

/-- The shares add up to the composite score, but for half a hundredth for each rounding. -/
theorem abs_sum_contribution_sub_le (hpos : 0 < totalWeight fs) :
    |(fs.map (contribution (totalWeight fs))).sum - composite fs| ≤ 1 / 200 * (fs.length + 1) := by
  have hshares : |(fs.map (contribution (totalWeight fs))).sum - weightedMean fs| ≤
      fs.length * (1 / 200) := by
    rw [← sum_exactShare fs]
    apply abs_sum_sub_sum_le
    intro f _
    rw [contribution_of_pos hpos]
    exact abs_hundredths_sub_le (exactShare_nonneg fs f)
  have hmean : |weightedMean fs - composite fs| ≤ 1 / 200 := by
    rw [composite_eq hpos, abs_sub_comm]
    exact abs_hundredths_sub_le (weightedMean_nonneg hpos)
  calc |(fs.map (contribution (totalWeight fs))).sum - composite fs|
      ≤ |(fs.map (contribution (totalWeight fs))).sum - weightedMean fs| +
          |weightedMean fs - composite fs| := abs_sub_le _ _ _
    _ ≤ fs.length * (1 / 200) + 1 / 200 := add_le_add hshares hmean
    _ = 1 / 200 * (fs.length + 1) := by ring

/-! ### Evaluations -/

/-- The component belongs to the factor, and its share is no greater than the score. -/
structure ScoreComponent.ShareOf (c : ScoreComponent Rat) (f : Factor Rat) : Prop where
  factor : c.factor = f.kind
  score : c.score = f.score.value
  nonneg : 0 ≤ c.contribution
  le_score : c.contribution ≤ hundredths f.score.value

/-- The shares that an evaluation reports of an assessment, one for each factor in order. -/
structure Apportioned (config : EvaluationConfig Rat) (a : Assessment Rat) : Prop where
  shares : List.Forall₂ ScoreComponent.ShareOf (config.evaluate a).components a.factors
  bounds : ∀ c ∈ (config.evaluate a).components, 0 ≤ c.contribution ∧ c.contribution ≤ 100
  weightless : totalWeight a.factors = 0 →
    ∀ c ∈ (config.evaluate a).components, c.contribution = 0

theorem apportioned (config : EvaluationConfig Rat) (a : Assessment Rat) :
    Apportioned config a where
  shares := by
    show List.Forall₂ _ (a.factors.map _) a.factors
    rw [List.forall₂_map_left_iff, List.forall₂_same]
    intro f hf
    obtain ⟨hnonneg, hle⟩ := contribution_bounds hf
    exact ⟨rfl, rfl, hnonneg, hle⟩
  bounds c hc := by
    obtain ⟨f, hf, rfl⟩ := List.mem_map.mp hc
    obtain ⟨hnonneg, hle⟩ := contribution_bounds hf
    refine ⟨hnonneg, hle.trans ?_⟩
    exact_mod_cast hundredths_le_natCast f.score.nonneg f.score.le_hundred
  weightless hzero c hc := by
    obtain ⟨f, -, rfl⟩ := List.mem_map.mp hc
    exact contribution_of_weightless hzero f

/-- Submitted weights may all be zero, as long as not all four kinds are there. -/
example :
    let input : AssessmentInput Rat :=
      ⟨"pol-1", 70, none, [⟨"CLAIMS_HISTORY", 60, 0, none⟩, ⟨"LOCATION_RISK", 85, 0, none⟩], "ana",
        none⟩
    ((input.build ⟨0, 0⟩).toOption.map fun a => (contributions a).map (·.contribution)) =
      some [0, 0] := by
  decide +kernel

/-- **Apportionment.** Of every assessment the reported shares are within their bounds, and those of
a scored request add up to its composite score but for the roundings. -/
theorem EvaluationConfig.apportionment (config : EvaluationConfig Rat) :
    (∀ a, Apportioned config a) ∧
    ∀ request now a, config.assess request now = .ok a →
      |((config.evaluate a).components.map (·.contribution)).sum - a.riskScore.value| ≤
        1 / 200 * (a.factors.length + 1) := by
  refine ⟨apportioned config, fun request now a h => ?_⟩
  have hscores := scores_of_assess h
  have hpos : 0 < totalWeight a.factors := by
    simpa [whole_zero_rat] using hscores.weight
  have hcontributions : (config.evaluate a).components.map (·.contribution) =
      a.factors.map (contribution (totalWeight a.factors)) := by
    show (a.factors.map _).map _ = _
    rw [List.map_map]
    rfl
  rw [hcontributions, hscores.composite]
  exact abs_sum_contribution_sub_le hpos

/-- The shares of three scores of 50 add up to 50.01. -/
theorem apportionment_of_equal_scores :
    let request : ScoreRequest Rat :=
      ⟨"pol-1", fun kind => if kind = .businessType then none else some 50, "ana"⟩
    let config : EvaluationConfig Rat := .standard
    ∃ a, config.assess request ⟨0, 0⟩ = .ok a ∧ Apportioned config a ∧
      ((config.evaluate a).components.map (·.contribution)).sum = 5001 / 100 ∧
      |(5001 / 100 : Rat) - a.riskScore.value| ≤ 1 / 200 * (3 + 1) := by
  intro request config
  have hsum : ((config.assess request ⟨0, 0⟩).toOption.map fun a =>
      (((config.evaluate a).components.map (·.contribution)).sum, a.factors.length)) =
        some (5001 / 100, 3) := by
    decide +kernel
  cases ha : config.assess request ⟨0, 0⟩ with
  | error report =>
    rw [ha] at hsum
    cases hsum
  | ok a =>
    rw [ha] at hsum
    obtain ⟨hsum, hlength⟩ := Prod.mk.inj (Option.some.inj hsum)
    obtain ⟨hall, hassessed⟩ := EvaluationConfig.apportionment config
    have herror := hassessed request ⟨0, 0⟩ a ha
    rw [hsum, hlength] at herror
    exact ⟨a, rfl, hall a, hsum, by exact_mod_cast herror⟩

end

/-! ## The band of a composite score

A weighted mean lies between the least and the greatest score, and so does its band. But the mean is
rounded to hundredths before it is classified, and the scores of the factors are not. Numbers are
exact here, so that this rounding is the only one.

- **Rounding** (`band_hundredths_le`): in hundredths a number is above a whole one from half a
  hundredth above it on. So rounding may lower a band, and raises none.
- **Bands** (`EvaluationConfig.compositeBands`): the severity of an assessment lies between the
  lowest band of its scores in hundredths and the highest severity of its factors.
- **Edges** (`rounded_down_of_below`): it is below all its factors only when their mean is less than
  half a hundredth above an edge, as it may be (`composite_below_factors`). -/

section

open Quantity (hundredths whole_rat whole_zero_rat)

/-! ### Bands -/

/-- The number that a band ends with. HIGH has none. -/
def Severity.edge? : Severity → Option Nat
  | low => some 60
  | medium => some 80
  | high => none

/-- A number is in a band or below exactly when it is not above its edge. -/
theorem band_le_iff {x : Rat} {s : Severity} : Severity.band x ≤ s ↔ ∀ n ∈ s.edge?, x ≤ n := by
  have hband : Severity.band x = if x ≤ 60 then .low else if x ≤ 80 then .medium else .high := by
    rw [Severity.band, whole_rat, whole_rat, Nat.cast_ofNat, Nat.cast_ofNat]
  rw [hband]
  by_cases hlow : x ≤ 60
  · have hmedium : x ≤ 80 := hlow.trans (by norm_num)
    rw [if_pos hlow]
    refine iff_of_true (by cases s <;> decide) ?_
    cases s <;> simp [Severity.edge?, hlow, hmedium]
  · rw [if_neg hlow]
    by_cases hmedium : x ≤ 80
    · rw [if_pos hmedium]
      cases s with
      | low => exact iff_of_false (by decide) (by simpa [Severity.edge?] using hlow)
      | medium => exact iff_of_true (by decide) (by simpa [Severity.edge?] using hmedium)
      | high => exact iff_of_true (by decide) (by simp [Severity.edge?])
    · rw [if_neg hmedium]
      cases s with
      | low => exact iff_of_false (by decide) (by simpa [Severity.edge?] using hlow)
      | medium => exact iff_of_false (by decide) (by simpa [Severity.edge?] using hmedium)
      | high => exact iff_of_true (by decide) (by simp [Severity.edge?])

/-- Rounding raises no band. Every edge is whole, and a number at most a whole one stays so when it
is rounded. -/
theorem band_hundredths_le {x : Rat} (hx : 0 ≤ x) :
    Severity.band (hundredths x) ≤ Severity.band x :=
  band_le_iff.mpr fun n hn =>
    hundredths_le_natCast hx (band_le_iff.mp (Severity.le_refl (Severity.band x)) n hn)

/-! ### The band of the mean -/

/-- The severity of an assessment among those of its factors. -/
structure CompositeBands (config : EvaluationConfig Rat) (a : Assessment Rat) : Prop where
  /-- It is no lower than the lowest band of the scores in hundredths. -/
  lowest : ∃ f ∈ a.factors, Severity.band (hundredths f.score.value) ≤ a.severity
  /-- It is no higher than the highest severity of the factors. -/
  highest : ∃ f ∈ a.factors, a.severity ≤ f.severity
  atLeastMedium : (∀ f ∈ a.factors, .medium ≤ Severity.band (hundredths f.score.value)) →
    .medium ≤ a.severity ∧ (config.evaluate a).recommendedStatus ≠ .autoApproved
  allHigh : (∀ f ∈ a.factors, Severity.band (hundredths f.score.value) = .high) →
    a.severity = .high ∧ (config.referHighRiskToCarrier = true →
      (config.evaluate a).recommendedStatus = .referredToCarrier)
  noneAbove : ∀ s, (∀ f ∈ a.factors, f.severity ≤ s) → a.severity ≤ s
  /-- It is below every factor only when the mean is rounded down onto the edge of its band. -/
  below : (∀ f ∈ a.factors, ¬ f.severity ≤ a.severity) → ∃ n ∈ a.severity.edge?,
    a.riskScore.value = n ∧ n < weightedMean a.factors ∧ weightedMean a.factors < n + 1 / 200

section

variable {config : EvaluationConfig Rat} {request : ScoreRequest Rat} {now : Instant}
  {a : Assessment Rat}

/-- The least of the scores is no greater than the mean, and rounding keeps the order. -/
private theorem exists_band_le (hpos : 0 < totalWeight a.factors)
    (hscore : a.riskScore.value = hundredths (weightedMean a.factors)) :
    ∃ f ∈ a.factors, Severity.band (hundredths f.score.value) ≤ a.severity := by
  obtain ⟨f, hf, hle⟩ := exists_score_le_mean hpos
  refine ⟨f, hf, ?_⟩
  rw [a.severity_eq, Score.severity_eq_band, hscore]
  exact Severity.band_le_band (hundredths_mono f.score.nonneg hle)

private theorem exists_le_band (hpos : 0 < totalWeight a.factors)
    (hscore : a.riskScore.value = hundredths (weightedMean a.factors)) :
    ∃ f ∈ a.factors, a.severity ≤ f.severity := by
  obtain ⟨f, hf, hle⟩ := exists_mean_le_score hpos
  have hrounded := hundredths_mono (weightedMean_nonneg hpos) hle
  refine ⟨f, hf, ?_⟩
  rw [a.severity_eq, Score.severity_eq_band, hscore, f.severity_eq, Score.severity_eq_band]
  exact Severity.le_trans (Severity.band_le_band hrounded) (band_hundredths_le f.score.nonneg)

/-- The mean of an assessment that is below all its factors was rounded down onto an edge. -/
theorem rounded_down_of_below (hpos : 0 < totalWeight a.factors)
    (hscore : a.riskScore.value = hundredths (weightedMean a.factors))
    (hbelow : ∀ f ∈ a.factors, ¬ f.severity ≤ a.severity) :
    ∃ n ∈ a.severity.edge?, a.riskScore.value = n ∧ n < weightedMean a.factors ∧
      weightedMean a.factors < n + 1 / 200 := by
  obtain ⟨f, hf, hle⟩ := exists_score_le_mean hpos
  have habove := hbelow f hf
  rw [f.severity_eq, Score.severity_eq_band, band_le_iff] at habove
  simp only [not_forall, not_le] at habove
  obtain ⟨n, hn, hlt⟩ := habove
  have hmean := weightedMean_nonneg hpos
  rw [a.severity_eq] at hn ⊢
  have hedge : a.riskScore.value ≤ n := band_le_iff.mp (Severity.le_refl a.riskScore.severity) n hn
  rw [hscore] at hedge ⊢
  refine ⟨n, hn, hedge.antisymm ((le_hundredths_iff hmean n).mpr ?_), hlt.trans_le hle, ?_⟩
  · linarith
  · exact not_le.mp (mt (lt_hundredths_iff hmean n).mpr (not_lt.mpr hedge))

/-- **The band of a composite score.** It lies between those of the factors, the lowest of them
taken of the scores in hundredths. -/
theorem EvaluationConfig.compositeBands (h : config.assess request now = .ok a) :
    CompositeBands config a := by
  have hscores := scores_of_assess h
  have hpos : 0 < totalWeight a.factors := by
    simpa [whole_zero_rat] using hscores.weight
  have hscore := hscores.composite.trans (composite_eq hpos)
  have hlowest := exists_band_le hpos hscore
  have hhighest := exists_le_band hpos hscore
  refine ⟨hlowest, hhighest, fun hall => ?_, fun hall => ?_, fun s hall => ?_,
    rounded_down_of_below hpos hscore⟩
  · obtain ⟨f, hf, hle⟩ := hlowest
    have hmedium := Severity.le_trans (hall f hf) hle
    refine ⟨hmedium, fun happroved => ?_⟩
    rw [(autoApproved_iff.mp happroved).1] at hmedium
    exact absurd hmedium (by decide)
  · obtain ⟨f, hf, hle⟩ := hlowest
    have hhigh := Severity.eq_high_of_le hle (hall f hf)
    refine ⟨hhigh, fun hrefer => ?_⟩
    rw [recommendedStatus_eq, hhigh]
    exact if_pos hrefer
  · obtain ⟨f, hf, hle⟩ := hhighest
    exact Severity.le_trans hle (hall f hf)

end

/-- The least score that is MEDIUM in hundredths, with one above it: the request is not approved. -/
theorem compositeBands_of_review :
    let request : ScoreRequest Rat :=
      ⟨"pol-1", fun kind => match kind with
        | .claimsHistory => some (60005 / 1000)
        | .locationRisk => some 75
        | _ => none, "ana"⟩
    let config : EvaluationConfig Rat := .standard
    ∃ a, config.assess request ⟨0, 0⟩ = .ok a ∧ CompositeBands config a ∧
      (config.evaluate a).recommendedStatus ≠ .autoApproved := by
  intro request config
  have hscores : ((config.assess request ⟨0, 0⟩).toOption.map fun a =>
      a.factors.map (·.score.value)) = some [60005 / 1000, 75] := by
    decide +kernel
  cases ha : config.assess request ⟨0, 0⟩ with
  | error report =>
    rw [ha] at hscores
    cases hscores
  | ok a =>
    rw [ha] at hscores
    have hbands := EvaluationConfig.compositeBands ha
    have hvalues : a.factors.map (·.score.value) = [60005 / 1000, 75] := Option.some.inj hscores
    have hmedium : ∀ x ∈ a.factors.map (·.score.value), .medium ≤ Severity.band (hundredths x) := by
      rw [hvalues]
      decide +kernel
    have hfactors := hbands.atLeastMedium fun f hf => hmedium _ (List.mem_map_of_mem hf)
    exact ⟨a, rfl, hbands, hfactors.2⟩

/-- One thousandth above an edge, the only factor is HIGH and the assessment MEDIUM, or the factor
is MEDIUM and the request is approved. -/
theorem composite_below_factors :
    let request (score : Rat) : ScoreRequest Rat :=
      ⟨"pol-1", fun kind => if kind = .claimsHistory then some score else none, "ana"⟩
    let config : EvaluationConfig Rat := .standard
    ∃ a b, config.assess (request (80001 / 1000)) ⟨0, 0⟩ = .ok a ∧
      config.assess (request (60001 / 1000)) ⟨0, 0⟩ = .ok b ∧
      (∀ f ∈ a.factors, f.severity = .high) ∧ a.severity = .medium ∧
      (config.evaluate a).recommendedStatus = .manualReview ∧
      (∀ f ∈ b.factors, f.severity = .medium) ∧ b.severity = .low ∧
      (config.evaluate b).recommendedStatus = .autoApproved := by
  intro request config
  have hassessed (score : Rat) (s t : Severity) (status : UnderwritingStatus)
      (h : ((config.assess (request score) ⟨0, 0⟩).toOption.map fun a =>
        (a.factors.map Factor.severity, a.severity, (config.evaluate a).recommendedStatus)) =
          some ([s], t, status)) :
      ∃ a, config.assess (request score) ⟨0, 0⟩ = .ok a ∧ (∀ f ∈ a.factors, f.severity = s) ∧
        a.severity = t ∧ (config.evaluate a).recommendedStatus = status := by
    cases ha : config.assess (request score) ⟨0, 0⟩ with
    | error report =>
      rw [ha] at h
      cases h
    | ok a =>
      rw [ha] at h
      obtain ⟨hfactors, hrest⟩ := Prod.mk.inj (Option.some.inj h)
      obtain ⟨hseverity, hstatus⟩ := Prod.mk.inj hrest
      refine ⟨a, rfl, fun f hf => List.mem_singleton.mp ?_, hseverity, hstatus⟩
      rw [← hfactors]
      exact List.mem_map_of_mem hf
  obtain ⟨a, ha, hhigh, hmedium, hreviewed⟩ :=
    hassessed (80001 / 1000) .high .medium .manualReview (by decide +kernel)
  obtain ⟨b, hb, hfactor, hlow, happroved⟩ :=
    hassessed (60001 / 1000) .medium .low .autoApproved (by decide +kernel)
  exact ⟨a, b, ha, hb, hhigh, hmedium, hreviewed, hfactor, hlow, happroved⟩

end

end PolicyDesk
