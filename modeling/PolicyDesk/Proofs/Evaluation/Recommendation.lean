import PolicyDesk.Evaluation

/-!
# What an evaluation recommends

An evaluation recommends one of three statuses (`UnderwritingStatus.recommendable`), of which the
later ones are stricter.

- **Rule** (`EvaluationConfig.recommendedStatus_eq`): only the severity of the assessment, whether
  one of its factors is HIGH, and the two switches of the configuration count.
- **Approval** (`EvaluationConfig.autoApproved_iff`): what is approved without an underwriter.
- **Order** (`EvaluationConfig.strictness_le`): a greater severity and more HIGH factors do not get
  a laxer status.
-/

namespace PolicyDesk

namespace UnderwritingStatus

/-- The statuses that an evaluation can recommend. They stand in the order of their strictness. -/
def recommendable : List UnderwritingStatus := [autoApproved, manualReview, referredToCarrier]

/-- How strict a status is, of those that an evaluation can recommend. -/
def strictness (s : UnderwritingStatus) : Nat := recommendable.idxOf s

end UnderwritingStatus

open UnderwritingStatus (recommendable)

variable {α : Type} [Quantity α]

/-- One of the factors is HIGH. -/
def Assessment.HasHigh (a : Assessment α) : Prop := ∃ f ∈ a.factors, f.severity = .high

instance (a : Assessment α) : Decidable a.HasHigh :=
  inferInstanceAs (Decidable (∃ f ∈ a.factors, f.severity = .high))

private theorem highFactorReasons_isEmpty {a : Assessment α} :
    (highFactorReasons a).isEmpty = true ↔ ¬ a.HasHigh := by
  simp [highFactorReasons, Assessment.HasHigh]

namespace EvaluationConfig

variable {config : EvaluationConfig α} {a b : Assessment α}

/-- The rule of the recommendation. The reasons that come with the recommendation play no part in
it. -/
theorem recommendedStatus_eq (config : EvaluationConfig α) (a : Assessment α) :
    (config.evaluate a).recommendedStatus =
      match a.severity with
      | .low => if config.escalateOnHighFactor = true ∧ a.HasHigh then .manualReview
        else .autoApproved
      | .medium => .manualReview
      | .high => if config.referHighRiskToCarrier = true then .referredToCarrier
        else .manualReview := by
  show (recommend config a).1 = _
  unfold recommend
  cases a.severity with
  | low =>
    dsimp only
    have hempty : (!(highFactorReasons a).isEmpty) = true ↔ a.HasHigh := by
      rw [Bool.not_eq_true', ← Bool.not_eq_true, highFactorReasons_isEmpty, Classical.not_not]
    by_cases hrule : config.escalateOnHighFactor = true ∧ a.HasHigh
    · rw [if_pos hrule, if_pos (Bool.and_eq_true_iff.mpr ⟨hrule.1, hempty.mpr hrule.2⟩)]
    · rw [if_neg hrule, if_neg fun h => hrule ((Bool.and_eq_true_iff.mp h).imp_right hempty.mp)]
  | medium => rfl
  | high =>
    dsimp only
    split <;> rfl

theorem recommendedStatus_mem (config : EvaluationConfig α) (a : Assessment α) :
    (config.evaluate a).recommendedStatus ∈ recommendable := by
  rw [recommendedStatus_eq, recommendable]
  cases a.severity with
  | low => dsimp only; split <;> simp
  | medium => simp
  | high => dsimp only; split <;> simp

/-- What the recommendation depends on. The weights and the scores themselves do not count. -/
theorem recommendedStatus_congr {config' : EvaluationConfig α}
    (hrefer : config.referHighRiskToCarrier = config'.referHighRiskToCarrier)
    (hescalate : config.escalateOnHighFactor = config'.escalateOnHighFactor)
    (hseverity : a.severity = b.severity) (hhigh : a.HasHigh ↔ b.HasHigh) :
    (config.evaluate a).recommendedStatus = (config'.evaluate b).recommendedStatus := by
  simp only [recommendedStatus_eq, hrefer, hescalate, hseverity, hhigh]

/-- Automatic approval is for LOW risks without a HIGH factor that counts. -/
theorem autoApproved_iff :
    (config.evaluate a).recommendedStatus = .autoApproved ↔
      a.severity = .low ∧ (config.escalateOnHighFactor = false ∨ ¬ a.HasHigh) := by
  rw [recommendedStatus_eq]
  cases a.severity with
  | low =>
    dsimp only
    split
    · rename_i hrule
      simp [hrule]
    · rename_i hrule
      rw [Classical.not_and_iff_not_or_not, Bool.not_eq_true] at hrule
      simp [hrule]
  | medium => simp
  | high => dsimp only; split <;> simp

/-- A greater severity and more HIGH factors do not get a laxer status. -/
theorem strictness_le (hseverity : a.severity ≤ b.severity) (hhigh : a.HasHigh → b.HasHigh) :
    (config.evaluate a).recommendedStatus.strictness ≤
      (config.evaluate b).recommendedStatus.strictness := by
  rw [recommendedStatus_eq, recommendedStatus_eq]
  -- Three severities on each side, of which the decreasing pairs are excluded.
  cases ha : a.severity with
  | low =>
    cases hb : b.severity with
    | low =>
      dsimp only
      split
      · rename_i hrule
        exact Nat.le_of_eq (congrArg _ (if_pos ⟨hrule.1, hhigh hrule.2⟩).symm)
      · exact Nat.zero_le _
    | medium => dsimp only; split <;> decide
    | high => dsimp only; split <;> split <;> decide
  | medium =>
    cases hb : b.severity with
    | low => exact absurd (ha ▸ hb ▸ hseverity) (by decide)
    | medium => exact Nat.le_refl _
    | high => dsimp only; split <;> decide
  | high =>
    cases hb : b.severity with
    | low => exact absurd (ha ▸ hb ▸ hseverity) (by decide)
    | medium => exact absurd (ha ▸ hb ▸ hseverity) (by decide)
    | high => exact Nat.le_refl _

end EvaluationConfig

end PolicyDesk
