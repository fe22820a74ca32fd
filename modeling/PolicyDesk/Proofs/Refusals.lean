import PolicyDesk.Proofs.Collecting
import PolicyDesk.Proofs.Evaluation.Scoring
import PolicyDesk.Proofs.Underwriting.Decisions

/-!
# Refusals

Whatever is refused, the refusal lists a violation, and whatever is accepted was found without one
(`no_empty_refusal`).

- **Scores** (`scoring`): the run over the scores of a request adds their faults and comes to the
  factors weighed (`scoring_adds`); the mean and the assessment put together from it are checked
  only after a run that added none (`EvaluationConfig.gathered`).
- **Decisions** (`Decision.collect`): the run over a proposal adds the violations of its report and
  the one of a missing underwriter (`Decision.gathered_collect`).
-/

namespace PolicyDesk

open Collecting

/-! ## Scores -/

section

variable {α : Type} [Quantity α]

/-- The check of a score of a request; it comes to the factor that the score makes. Only the first
of its two checks that fails is pushed. -/
def weighing (weights : FactorWeights α) (entry : FactorType × α) :
    Collecting (Option (Factor α)) := do
  match ← note (scoreField entry.1) (·.message) (Score.ofValue entry.2) with
  | none => return none
  | some score =>
    match Factor.make entry.1 score (weights.get entry.1) with
    | .ok factor => return some factor
    | .error report =>
      report.violations.forM fun v => push (scoreField entry.1 ++ "." ++ v.field) v.message
      return none

/-- The check of all scores of a request and of their weights; it comes to the factors. The total
weight is asked of the factors that passed, even when others did not. -/
def scoring (weights : FactorWeights α) (scores : List (FactorType × α)) :
    Collecting (List (Factor α)) := do
  pushIf scores.isEmpty "factor_scores" "at least one factor score is required"
  let factors ← scores.filterMapM (weighing weights)
  pushIf (¬ factors.isEmpty ∧ totalWeight factors ≤ Quantity.whole 0) "factor_scores"
    "configured weights for these factors are all zero"
  return factors

theorem weighing_adds (weights : FactorWeights α) (entry : FactorType × α) :
    (weighing weights entry).Adds (weighFactor weights entry).toOption
      (match weighFactor weights entry with | .ok _ => [] | .error found => found) := by
  unfold weighing weighFactor
  have hscore := adds_note (scoreField entry.1) (·.message) (Score.ofValue entry.2)
  cases hs : Score.ofValue entry.2 with
  | error e =>
    rw [hs] at hscore
    exact hscore.bind (adds_pure none)
  | ok score =>
    rw [hs] at hscore
    refine hscore.bind ?_
    dsimp only [Except.toOption]
    cases Factor.make entry.1 score (weights.get entry.1) with
    | ok factor => exact adds_pure (some factor)
    | error report =>
      have hpushes := Adds.forM (fun v : Violation =>
        adds_push (scoreField entry.1 ++ "." ++ v.field) v.message) report.violations
      rw [← List.map_eq_flatMap] at hpushes
      exact hpushes.map fun _ => none

/-- The run over the scores adds their faults. The factors it comes to are those that passed. -/
theorem scoring_adds (weights : FactorWeights α) (scores : List (FactorType × α)) :
    (scoring weights scores).Adds (weighedFactors weights scores)
      (scoringFaults weights scores) := by
  have hfactors := Adds.filterMapM (weighing_adds weights) scores
  unfold scoring scoringFaults scoreViolations
  simp only [weighedFactors, List.filterMap_map, List.flatMap_map, List.append_assoc]
  refine (adds_pushIf _ _ _).bind (hfactors.bind ?_)
  exact (adds_pushIf _ _ _).map _

/-- Typed parts as they are submitted. Their texts are their codes, so that the checks of kinds and
severities pass. -/
def Assessment.parts (policyId : PolicyId) (score : Score α) (factors : List (Factor α))
    (assessedBy : String) (date : Instant) : AssessmentInput α where
  policyId := policyId
  riskScore := score.value
  severity := none
  factors := factors.map Factor.toInput
  assessedBy := assessedBy
  assessmentDate := some date

theorem Assessment.ofParts_eq (policyId : PolicyId) (score : Score α) (factors : List (Factor α))
    (assessedBy : String) (date : Instant) :
    ofParts policyId score factors assessedBy date =
      (parts policyId score factors assessedBy date).build date := rfl

/-- What the scoring of a request gathers: of its scores, of their mean, and of the assessment put
together from them. Each stage starts anew, and is reached when the one before it passed. -/
def EvaluationConfig.gathered (config : EvaluationConfig α) (request : ScoreRequest α)
    (now : Instant) : Collector :=
  let (factors, ofScores) := (scoring config.factorWeights request.scores).run .empty
  if ofScores.finish.valid then
    let (score?, ofMean) :=
      (note "factor_scores" (·.message) (Score.ofValue (composite factors))).run .empty
    match score? with
    | none => ⟨ofScores.violations ++ ofMean.violations⟩
    | some score =>
      let ofParts := (Assessment.parts request.policyId score factors request.assessedBy
        now).collect.gathered
      ⟨ofScores.violations ++ ofMean.violations ++ ofParts.violations⟩
  else ofScores

theorem EvaluationConfig.agreesWith_assess (config : EvaluationConfig α) (request : ScoreRequest α)
    (now : Instant) : (config.gathered request now).AgreesWith (config.assess request now) := by
  unfold gathered assess
  rw [scoring_adds, compositeScore_eq, Collector.empty, List.nil_append]
  -- The scores matter no more, only what was found in them and the factors that they made.
  generalize scoringFaults config.factorWeights request.scores = faults
  generalize weighedFactors config.factorWeights request.scores = factors
  dsimp only
  cases faults with
  | cons v rest => exact Collector.agreesWith_error (List.cons_ne_nil v rest)
  | nil =>
    cases Score.ofValue (composite factors) with
    | error e => exact Collector.agreesWith_error (List.cons_ne_nil _ _)
    | ok score => exact AssessmentInput.agreesWith_build _ now

end

/-! ## Decisions -/

/-- The check of a proposal; it comes to the status that the proposal names. Its conditions are
counted from zero, as in the report. -/
def ProposedDecision.collect (p : ProposedDecision) : Collecting (Option UnderwritingStatus) := do
  let status ← note "decision" (·.message)
    (parseStatus p.decision : Except UnknownStatus UnderwritingStatus)
  pushIf (status = some .declined ∧ p.notesLength < minDeclineNotes) "notes"
    ("declining requires notes of at least " ++ toString minDeclineNotes ++ " characters")
  (p.conditions.getD []).zipIdx.forM fun entry =>
    pushIf (Text.isBlank entry.1) ("conditions[" ++ toString entry.2 ++ "]")
      "condition must not be blank"
  return status

/-- The check of a proposal that an underwriter takes. The underwriter is looked at last. -/
def Decision.collect (p : ProposedDecision) (decidedBy : String) :
    Collecting (Option UnderwritingStatus) := do
  let status ← p.collect
  pushIf (Text.isBlank decidedBy) "decided_by" "decision must name the underwriter"
  return status

/-- The conditions are checked one after the other. Filtering first gives the same list. -/
theorem ProposedDecision.checkConditions_eq (p : ProposedDecision) :
    p.checkConditions = (p.conditions.getD []).zipIdx.flatMap fun entry =>
      if Text.isBlank entry.1 then
        [⟨"conditions[" ++ toString entry.2 ++ "]", "condition must not be blank"⟩] else [] := by
  unfold checkConditions
  induction (p.conditions.getD []).zipIdx with
  | nil => rfl
  | cons entry entries ih =>
    rw [List.filter_cons, List.flatMap_cons, ← ih]
    split <;> rfl

theorem ProposedDecision.collect_adds (p : ProposedDecision) :
    p.collect.Adds p.check.1 p.check.2 := by
  unfold collect check
  rw [checkConditions_eq]
  simp only [List.append_assoc]
  refine (adds_note _ _ _).bind ((adds_pushIf _ _ _).bind ?_)
  exact (Adds.forM (fun entry => adds_pushIf _ _ _) _).map _

/-- What the check gathers is the report on the proposal, and one violation more if no one is named.
-/
theorem Decision.gathered_collect (p : ProposedDecision) (decidedBy : String) :
    (collect p decidedBy).gathered.violations = p.validate.violations ++
      if Text.isBlank decidedBy then [⟨"decided_by", "decision must name the underwriter"⟩]
      else [] := by
  have hadds : (collect p decidedBy).Adds p.check.1 (p.check.2 ++ _) :=
    p.collect_adds.bind ((adds_pushIf _ _ _).map _)
  rw [hadds.gathered_eq]
  rfl

theorem Decision.agreesWith_ofProposal (p : ProposedDecision) (decidedBy : String)
    (decidedAt : Instant) :
    (collect p decidedBy).gathered.AgreesWith (ofProposal p decidedBy decidedAt) := by
  have hgathered := gathered_collect p decidedBy
  have hmade : (∃ d, ofProposal p decidedBy decidedAt = .ok d) ↔
      (collect p decidedBy).gathered.violations = [] := by
    rw [exists_ofProposal_iff, hgathered, List.append_eq_nil_iff, Report.valid, List.isEmpty_iff]
    simp
  cases hresult : ofProposal p decidedBy decidedAt with
  | ok d => exact Collector.agreesWith_ok (hmade.mp ⟨d, hresult⟩)
  | error report =>
    have hreport : report = (collect p decidedBy).gathered.finish := by
      rw [Collector.finish, hgathered, ← violations_of_refused hresult]
    rw [hreport]
    refine Collector.agreesWith_error fun hnone => ?_
    obtain ⟨d, hd⟩ := hmade.mpr hnone
    rw [hresult] at hd
    cases hd

/-! ## Refusals -/

/-- What is refused agrees with what was gathered, wherever something can be refused. -/
structure NoEmptyRefusal (α : Type) [Quantity α] : Prop where
  /-- The check of a factor adds its violations to those that are there, and comes to none exactly
  when it adds some. -/
  read : ∀ (lead : String) (raw : FactorInput α),
    (raw.collect lead).Adds (raw.read lead).2 (raw.read lead).1 ∧ (raw.collect lead).FailsLoudly
  make : ∀ (kind : FactorType) (score : Score α) (weight : α),
    (note "weight" (·.message) (Weight.ofValue weight)).gathered.AgreesWith
      (Factor.make kind score weight)
  toFactor : ∀ raw : FactorInput α, (raw.collect "").gathered.AgreesWith raw.toFactor
  build : ∀ (input : AssessmentInput α) (now : Instant),
    input.collect.gathered.AgreesWith (input.build now)
  ofParts : ∀ (policyId : PolicyId) (score : Score α) (factors : List (Factor α))
    (assessedBy : String) (date : Instant),
    (Assessment.parts policyId score factors assessedBy date).collect.gathered.AgreesWith
      (Assessment.ofParts policyId score factors assessedBy date)
  assess : ∀ (config : EvaluationConfig α) (request : ScoreRequest α) (now : Instant),
    (config.gathered request now).AgreesWith (config.assess request now)
  ofProposal : ∀ (p : ProposedDecision) (decidedBy : String) (decidedAt : Instant),
    (Decision.collect p decidedBy).gathered.AgreesWith (Decision.ofProposal p decidedBy decidedAt)

/-- **Refusals.** Every refusal is the report of what was gathered, of at least one violation, and
whatever is accepted gathered none. -/
theorem no_empty_refusal (α : Type) [Quantity α] : NoEmptyRefusal α where
  read lead raw := ⟨raw.collect_adds lead, raw.collect_failsLoudly lead⟩
  make := Factor.agreesWith_make
  toFactor := FactorInput.agreesWith_toFactor
  build := AssessmentInput.agreesWith_build
  ofParts policyId score factors assessedBy date := by
    rw [Assessment.ofParts_eq]
    exact AssessmentInput.agreesWith_build _ date
  assess := EvaluationConfig.agreesWith_assess
  ofProposal := Decision.agreesWith_ofProposal

end PolicyDesk
