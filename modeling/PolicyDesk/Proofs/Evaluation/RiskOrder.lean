import PolicyDesk.Proofs.Double.Monotone
import PolicyDesk.Proofs.Evaluation.Recommendation
import PolicyDesk.Proofs.Evaluation.Scoring

/-!
# Greater risks are not treated better

From the scores of a request to the recommended status, nothing turns two risks around
(`EvaluationConfig.riskMonotone`). The escalation of HIGH factors lifts a status above the band of
its composite score, and keeps the order too: a factor stays HIGH when its score grows.
-/

namespace PolicyDesk

open MonotoneQuantity (isNumber_of_le)

variable {α : Type} [Quantity α]

/-- An assessment has the same kinds of factors as another, and scores that are no greater. The
weights may differ, as they do not count once the composite score is there. -/
structure Assessment.Below (a b : Assessment α) : Prop where
  kinds : ∀ kind, kind ∈ a.factors.map (·.kind) ↔ kind ∈ b.factors.map (·.kind)
  composite : a.riskScore.value ≤ b.riskScore.value
  scores : ∀ f ∈ a.factors, ∀ g ∈ b.factors, f.kind = g.kind → f.score.value ≤ g.score.value

/-- The second assessment is evaluated no milder than the first. The statuses are compared by how
strict they are. -/
structure EvaluationConfig.NoMilder (config : EvaluationConfig α) (a b : Assessment α) : Prop where
  composite : a.riskScore.value ≤ b.riskScore.value
  severity : a.severity ≤ b.severity
  status : (config.evaluate a).recommendedStatus.strictness ≤
    (config.evaluate b).recommendedStatus.strictness

/-- From scores to statuses, risks keep their order. -/
structure RiskMonotone (config : EvaluationConfig α) : Prop where
  /-- Requests with greater scores get assessments that are evaluated no milder. -/
  assessed : ∀ r r' now now' a a', ScoreRequest.Below r r' → config.assess r now = .ok a →
    config.assess r' now' = .ok a' → config.NoMilder a a'
  /-- And so it is with any two assessments, scored or submitted. -/
  evaluated : ∀ a b, Assessment.Below a b → config.NoMilder a b
  /-- Nothing but the scores of the assessment and the two switches counts. -/
  determined : ∀ weights a b, a.riskScore.value = b.riskScore.value →
    (a.factors.map fun f => (f.kind, f.score.value)).Perm
      (b.factors.map fun f => (f.kind, f.score.value)) →
    (config.evaluate a).recommendedStatus =
      ({ config with factorWeights := weights }.evaluate b).recommendedStatus
  approved : ∀ a, (config.evaluate a).recommendedStatus = .autoApproved ↔
    a.severity = .low ∧ (config.escalateOnHighFactor = false ∨ ¬ a.HasHigh)

/-- HIGH factors are told by the scores alone. So they do not depend on the order of the factors. -/
theorem hasHigh_iff {a : Assessment α} :
    a.HasHigh ↔ ∃ e ∈ a.factors.map fun f => (f.kind, f.score.value),
      Severity.band e.2 = .high := by
  simp [Assessment.HasHigh, Factor.severity_eq, Score.severity_eq_band]

theorem EvaluationConfig.status_determined (config : EvaluationConfig α)
    (weights : FactorWeights α) {a b : Assessment α}
    (hscore : a.riskScore.value = b.riskScore.value)
    (hfactors : (a.factors.map fun f => (f.kind, f.score.value)).Perm
      (b.factors.map fun f => (f.kind, f.score.value))) :
    (config.evaluate a).recommendedStatus =
      ({ config with factorWeights := weights }.evaluate b).recommendedStatus := by
  refine recommendedStatus_congr rfl rfl ?_ ?_
  · rw [a.severity_eq, Score.ext hscore, b.severity_eq]
  · rw [hasHigh_iff, hasHigh_iff]
    simp only [hfactors.mem_iff]

section

variable [MonotoneQuantity α] {config : EvaluationConfig α} {a b : Assessment α}

/-- A HIGH factor stays HIGH when its score grows. -/
theorem Factor.severity_eq_high {f g : Factor α} (h : f.score.value ≤ g.score.value)
    (hf : f.severity = .high) : g.severity = .high := by
  rw [f.severity_eq] at hf
  rw [g.severity_eq]
  exact Severity.eq_high_of_le (Score.severity_le h) hf

theorem Assessment.severity_le (h : a.riskScore.value ≤ b.riskScore.value) :
    a.severity ≤ b.severity := by
  rw [a.severity_eq, b.severity_eq]
  exact Score.severity_le h

private theorem EvaluationConfig.noMilder_of_le (h : a.riskScore.value ≤ b.riskScore.value)
    (hhigh : a.HasHigh → b.HasHigh) : config.NoMilder a b where
  composite := h
  severity := Assessment.severity_le h
  status := strictness_le (Assessment.severity_le h) hhigh

theorem Assessment.Below.hasHigh (h : a.Below b) (ha : a.HasHigh) : b.HasHigh := by
  obtain ⟨f, hf, hhigh⟩ := ha
  obtain ⟨g, hg, hkind⟩ := List.mem_map.mp ((h.kinds f.kind).mp (List.mem_map_of_mem hf))
  exact ⟨g, hg, Factor.severity_eq_high (h.scores f hf g hg hkind.symm) hhigh⟩

private theorem hasHigh_of_forall₂ {fs gs : List (Factor α)} (h : List.Forall₂ Factor.Below fs gs)
    (hf : ∃ f ∈ fs, f.severity = .high) : ∃ g ∈ gs, g.severity = .high := by
  induction h with
  | nil => exact hf
  | cons hfg _ ih =>
    rw [List.exists_mem_cons_iff] at hf ⊢
    exact hf.imp (Factor.severity_eq_high hfg.score) ih

/-- Requests with greater scores get assessments that are evaluated no milder. -/
theorem EvaluationConfig.noMilder_of_scores {r r' : ScoreRequest α} (h : r.Below r')
    (ha : config.Scores r a) (hb : config.Scores r' b) : config.NoMilder a b := by
  have hbelow := below_of_weighs h.forall₂ ha.factors hb.factors
  -- A composite score is a score and so no NaN, which the order of the numbers asks for.
  have hnumber (s : Score α) : Quantity.IsNumber s.value := (isNumber_of_le s.inRange.2.1).2
  refine noMilder_of_le ?_ (hasHigh_of_forall₂ hbelow)
  rw [ha.composite, hb.composite]
  exact composite_le_composite hbelow ha.weight (ha.composite ▸ hnumber _)
    (hb.composite ▸ hnumber _)

/-- **Monotonicity.** Greater risks are not treated better. The two requests may come at different
times, and the assessments may be submitted or scored. -/
theorem EvaluationConfig.riskMonotone (config : EvaluationConfig α) : RiskMonotone config where
  assessed _ _ _ _ _ _ h ha hb := noMilder_of_scores h (scores_of_assess ha) (scores_of_assess hb)
  evaluated _ _ h := noMilder_of_le h.composite h.hasHigh
  determined weights _ _ := config.status_determined weights
  approved _ := autoApproved_iff

end

/-- The same request with a location that is HIGH: its composite score is LOW still, and it is
reviewed. Scores are doubles here, as they are on the desk. -/
theorem riskMonotone_of_location :
    let request (location : Float) : ScoreRequest Float :=
      ⟨"pol-1", fun kind => match kind with
        | .claimsHistory => some 20
        | .locationRisk => some location
        | _ => none, "ana"⟩
    let config : EvaluationConfig Float := .standard
    ∃ a b, config.assess (request 50) ⟨0, 0⟩ = .ok a ∧ config.assess (request 85) ⟨0, 0⟩ = .ok b ∧
      (config.evaluate a).recommendedStatus = .autoApproved ∧
      (config.evaluate b).recommendedStatus = .manualReview ∧ config.NoMilder a b := by
  intro request config
  have hassessed (location : Float) (status : UnderwritingStatus)
      (h : ((config.assess (request location) ⟨0, 0⟩).toOption.map fun a =>
        (config.evaluate a).recommendedStatus) = some status) :
      ∃ a, config.assess (request location) ⟨0, 0⟩ = .ok a ∧
        (config.evaluate a).recommendedStatus = status := by
    cases ha : config.assess (request location) ⟨0, 0⟩ with
    | error report =>
      rw [ha] at h
      cases h
    | ok a =>
      rw [ha] at h
      exact ⟨a, rfl, Option.some.inj h⟩
  obtain ⟨a, ha, happroved⟩ := hassessed 50 .autoApproved (by decide +kernel)
  obtain ⟨b, hb, hreviewed⟩ := hassessed 85 .manualReview (by decide +kernel)
  refine ⟨a, b, ha, hb, happroved, hreviewed, ?_⟩
  refine (EvaluationConfig.riskMonotone config).assessed (request 50) (request 85) _ _ a b ?_ ha hb
  refine ⟨fun kind => by cases kind <;> decide +kernel, fun kind x y hx hy => ?_⟩
  cases kind <;> cases hx <;> cases hy <;> decide +kernel

end PolicyDesk
