import PolicyDesk.Claims
import PolicyDesk.Evaluation
import PolicyDesk.Json.Decode
import PolicyDesk.Underwriting
import PolicyDesk.Workflow

/-!
# Records as JSON

What is read from JSON is held to the rules of what it describes, and what is written can be read
again.
-/

namespace PolicyDesk

/-! ## Workflows as JSON

Statuses are written as their codes and entities as their names. -/

section

variable {σ : Type} [WorkflowStatus σ]

def statusJson (s : σ) : Json := .str (WorkflowStatus.code s)

def statusOfJson : Decoder σ := Decoder.code WorkflowStatus.all WorkflowStatus.code

end

namespace Entity

def toJson (e : Entity) : Json := .str e.name

def ofJson : Decoder Entity := Decoder.code all name

end Entity

/-- A question to the gate. The statuses are texts: whether they are codes of the entity is for the
gate to say. -/
structure TransitionCheck where
  entity : Entity
  currentStatus : String
  proposedStatus : String
  deriving DecidableEq, Repr

def TransitionCheck.ofJson : Decoder TransitionCheck :=
  ((Shape.of TransitionCheck.mk).required "entity" Entity.ofJson
    |>.required "current_status" Decoder.text
    |>.required "proposed_status" Decoder.text).decode

/-! ## Assessments as JSON

Submitted and accepted factors and assessments, reports, and the settings of an evaluation. An
accepted factor or assessment is decoded as a submission and held to the rules of one; `now` dates
an assessment that has no date. -/

namespace Instant

def toJson (t : Instant) : Json := .str t.text

end Instant

namespace Severity

def toJson (s : Severity) : Json := .str s.code

def ofJson : Decoder Severity := Decoder.code all code

end Severity

namespace FactorType

def toJson (t : FactorType) : Json := .str t.code

def ofJson : Decoder FactorType := Decoder.code all code

end FactorType

namespace Score

def toJson (s : Score Float) : Json := .ofFloat s.value

def ofJson : Decoder (Score Float) := fun json => do
  (Score.ofValue (← Decoder.float json)).mapError .score

end Score

namespace Violation

def toJson (v : Violation) : Json :=
  .record [("field", .str v.field), ("message", .str v.message)]

def ofJson : Decoder Violation :=
  ((Shape.of Violation.mk).required "field" Decoder.text |>.required "message" Decoder.text).decode

end Violation

namespace Report

def violationsJson (r : Report) : Json := .arr (r.violations.map Violation.toJson)

def toJson (r : Report) : Json :=
  .record [("valid", .bool r.valid), ("violations", r.violationsJson)]

end Report

namespace FactorInput

def toJson (f : FactorInput Float) : Json :=
  .record <|
    [("type", .str f.kind), ("score", .ofFloat f.score), ("weight", .ofFloat f.weight)] ++
    Json.member? "severity" .str f.severity

def ofJson : Decoder (FactorInput Float) :=
  ((Shape.of FactorInput.mk).required "type" Decoder.text
    |>.required "score" Decoder.float
    |>.required "weight" Decoder.float
    |>.optional "severity" Decoder.text).decode

end FactorInput

namespace Factor

def toJson (f : Factor Float) : Json :=
  .record
    [("type", f.kind.toJson), ("score", f.score.toJson), ("weight", .ofFloat f.weight.value),
     ("severity", f.severity.toJson)]

def ofJson : Decoder (Factor Float) := fun json => do
  let input ← FactorInput.ofJson json
  input.toFactor.mapError .rules

end Factor

namespace AssessmentInput

def toJson (a : AssessmentInput Float) : Json :=
  .record <|
    [("policy_id", .str a.policyId), ("risk_score", .ofFloat a.riskScore)] ++
    Json.member? "severity" .str a.severity ++
    [("factors", .arr (a.factors.map FactorInput.toJson)), ("assessed_by", .str a.assessedBy)] ++
    Json.member? "assessment_date" Instant.toJson a.assessmentDate

def ofJson : Decoder (AssessmentInput Float) :=
  ((Shape.of AssessmentInput.mk).required "policy_id" Decoder.text
    |>.required "risk_score" Decoder.float
    |>.optional "severity" Decoder.text
    |>.defaulted "factors" [] (Decoder.list FactorInput.ofJson)
    |>.defaulted "assessed_by" "" Decoder.text
    |>.optional "assessment_date" Decoder.instant).decode

end AssessmentInput

namespace Assessment

def toJson (a : Assessment Float) : Json :=
  .record
    [("policy_id", .str a.policyId), ("risk_score", a.riskScore.toJson),
     ("severity", a.severity.toJson), ("factors", .arr (a.factors.map Factor.toJson)),
     ("assessed_by", .str a.assessedBy), ("assessment_date", a.assessmentDate.toJson)]

def ofJson (now : Instant) : Decoder (Assessment Float) := fun json => do
  let input ← AssessmentInput.ofJson json
  (input.build now).mapError .rules

end Assessment

namespace FactorWeights

def toJson (w : FactorWeights Float) : Json :=
  .record
    [("claims_history", .ofFloat w.claimsHistory), ("location_risk", .ofFloat w.locationRisk),
     ("coverage_amount", .ofFloat w.coverageAmount), ("business_type", .ofFloat w.businessType)]

def ofJson : Decoder (FactorWeights Float) :=
  ((Shape.of FactorWeights.mk).required "claims_history" Decoder.float
    |>.required "location_risk" Decoder.float
    |>.required "coverage_amount" Decoder.float
    |>.required "business_type" Decoder.float).decode

end FactorWeights

namespace EvaluationConfig

def toJson (c : EvaluationConfig Float) : Json :=
  .record
    [("factor_weights", c.factorWeights.toJson),
     ("refer_high_risk_to_carrier", .bool c.referHighRiskToCarrier),
     ("escalate_on_high_factor", .bool c.escalateOnHighFactor)]

def ofJson : Decoder (EvaluationConfig Float) :=
  ((Shape.of EvaluationConfig.mk).required "factor_weights" FactorWeights.ofJson
    |>.required "refer_high_risk_to_carrier" Decoder.bool
    |>.required "escalate_on_high_factor" Decoder.bool).decode

end EvaluationConfig

namespace ScoreRequest

def toJson (r : ScoreRequest Float) : Json :=
  .record
    [("policy_id", .str r.policyId),
     ("factor_scores", .record (r.scores.map fun (kind, x) => (kind.code, .ofFloat x))),
     ("assessed_by", .str r.assessedBy)]

def ofJson : Decoder (ScoreRequest Float) :=
  ((Shape.of ScoreRequest.mk).required "policy_id" Decoder.text
    |>.required "factor_scores" (Decoder.codeMap FactorType.all FactorType.code Decoder.float)
    |>.defaulted "assessed_by" "" Decoder.text).decode

end ScoreRequest

/-! ## Underwriting files as JSON

Decisions, evaluation outcomes, referrals, files and what a caller is shown of them. -/

namespace ProposedDecision

def toJson (p : ProposedDecision) : Json :=
  .record <|
    [("decision", .str p.decision)] ++ Json.member? "notes" .str p.notes ++
    Json.member? "conditions" Json.ofStrings p.conditions

def ofJson : Decoder ProposedDecision :=
  ((Shape.of ProposedDecision.mk).required "decision" Decoder.text
    |>.optional "notes" Decoder.text
    |>.optional "conditions" (Decoder.list Decoder.text)).decode

end ProposedDecision

namespace Decision

def toJson (d : Decision) : Json :=
  .record <|
    [("status", statusJson d.status)] ++ Json.member? "notes" .str d.notes ++
    [("conditions", Json.ofStrings d.conditions), ("decided_by", .str d.decidedBy),
     ("decided_at", d.decidedAt.toJson)]

def ofJson : Decoder Decision :=
  ((Shape.of Decision.mk).required "status" statusOfJson
    |>.optional "notes" Decoder.text
    |>.defaulted "conditions" [] (Decoder.list Decoder.text)
    |>.required "decided_by" Decoder.text
    |>.required "decided_at" Decoder.instant).decode

end Decision

namespace ScoreComponent

def toJson (c : ScoreComponent Float) : Json :=
  .record
    [("factor", c.factor.toJson), ("score", .ofFloat c.score), ("weight", .ofFloat c.weight),
     ("contribution", .ofFloat c.contribution), ("severity", c.severity.toJson),
     ("notes", .str c.notes)]

def ofJson : Decoder (ScoreComponent Float) :=
  ((Shape.of ScoreComponent.mk).required "factor" FactorType.ofJson
    |>.required "score" Decoder.float
    |>.required "weight" Decoder.float
    |>.required "contribution" Decoder.float
    |>.required "severity" Severity.ofJson
    |>.required "notes" Decoder.text).decode

end ScoreComponent

namespace EvaluationOutcome

def toJson (o : EvaluationOutcome Float) : Json :=
  .record
    [("policy_id", .str o.policyId), ("risk_score", .ofFloat o.riskScore),
     ("severity", o.severity.toJson), ("recommended_status", statusJson o.recommendedStatus),
     ("reasons", Json.ofStrings o.reasons),
     ("components", .arr (o.components.map ScoreComponent.toJson))]

def ofJson : Decoder (EvaluationOutcome Float) :=
  ((Shape.of EvaluationOutcome.mk).required "policy_id" Decoder.text
    |>.required "risk_score" Decoder.float
    |>.required "severity" Severity.ofJson
    |>.required "recommended_status" statusOfJson
    |>.required "reasons" (Decoder.list Decoder.text)
    |>.required "components" (Decoder.list ScoreComponent.ofJson)).decode

end EvaluationOutcome

namespace Referral

def toJson (r : Referral) : Json :=
  .record
    [("policy_id", .str r.policyId), ("risk_score", .ofFloat r.riskScore),
     ("severity", r.severity.toJson), ("reasons", Json.ofStrings r.reasons)]

def ofJson : Decoder Referral :=
  ((Shape.of Referral.mk).required "policy_id" Decoder.text
    |>.required "risk_score" Decoder.float
    |>.required "severity" Severity.ofJson
    |>.required "reasons" (Decoder.list Decoder.text)).decode

end Referral

namespace UnderwritingFile

def toJson (f : UnderwritingFile) : Json :=
  .record
    [("assessment", f.assessment.toJson), ("status", statusJson f.status),
     ("evaluation", Json.orNull EvaluationOutcome.toJson f.evaluation),
     ("decisions", .arr (f.decisions.map Decision.toJson)),
     ("revision", .ofUInt64 f.revision)]

def ofJson (now : Instant) : Decoder UnderwritingFile :=
  ((Shape.of UnderwritingFile.mk).required "assessment" (Assessment.ofJson now)
    |>.required "status" statusOfJson
    |>.optional "evaluation" EvaluationOutcome.ofJson
    |>.required "decisions" (Decoder.list Decision.ofJson)
    |>.defaulted "revision" 0 Decoder.uint64).decode

end UnderwritingFile

namespace StatusView

def toJson (v : StatusView) : Json :=
  .record <|
    [("policy_id", .str v.policyId), ("status", statusJson v.status),
     ("severity", v.severity.toJson), ("risk_score", .ofFloat v.riskScore),
     ("allowed_next", Json.ofStrings v.allowedNext),
     ("decision_rationale", .str v.decisionRationale)] ++
    if v.conditions.isEmpty then [] else [("conditions", Json.ofStrings v.conditions)]

end StatusView

/-- A proposed decision and the underwriter who takes it. The two come in one body, side by side. -/
structure DecisionRequest where
  proposal : ProposedDecision
  decidedBy : String
  deriving DecidableEq, Repr

namespace DecisionRequest

/-- What was read of a request so far. The underwriter is decoded at once, the members of the
proposal at the end. -/
structure Progress where
  decidedBy : Option String
  /-- The members of the proposal and those that are skipped. -/
  rest : List (Option String × Json)

/-- Takes in a member: the underwriter, or one that is kept for the proposal. What is kept is read,
so it must stand for something and must not be nested too deeply. -/
def step (read : Progress) (entry : Option String × Json) : Except DecodeError Progress :=
  match entry.1, read.decidedBy with
  | none, _ => .error .malformed
  | some "decided_by", some _ => .error .malformed
  | some "decided_by", none =>
    (Decoder.text entry.2).map fun s => { read with decidedBy := some s }
  | some _, _ =>
    if entry.2.readable (Json.maxDepth - 1) then .ok { read with rest := read.rest ++ [entry] }
    else .error .malformed

/-- The proposal's fields and the underwriter stand side by side, in an object. A missing
underwriter is the empty text, which the rules then refuse. -/
def ofJson : Decoder DecisionRequest
  | .obj members => do
    let read ← members.foldlM step ⟨none, []⟩
    let proposal ← ProposedDecision.ofJson (.obj read.rest)
    return ⟨proposal, read.decidedBy.getD ""⟩
  | _ => .error .malformed

end DecisionRequest

/-! ## Claims as JSON

Reports of losses, status changes, claims and what a caller is shown of them. -/

namespace StatusChange

def toJson (c : StatusChange) : Json :=
  .record <|
    [("from", statusJson c.source), ("to", statusJson c.target)] ++
    Json.member? "note" .str c.note ++ [("changed_at", c.changedAt.toJson)]

def ofJson : Decoder StatusChange :=
  ((Shape.of StatusChange.mk).required "from" statusOfJson
    |>.required "to" statusOfJson
    |>.optional "note" Decoder.text
    |>.required "changed_at" Decoder.instant).decode

end StatusChange

namespace Claim

def toJson (c : Claim) : Json :=
  .record
    [("claim_id", .str c.claimId), ("policy_id", .str c.policyId),
     ("description", .str c.description), ("status", statusJson c.status),
     ("history", .arr (c.history.map StatusChange.toJson)), ("revision", .ofUInt64 c.revision)]

def ofJson : Decoder Claim :=
  ((Shape.of Claim.mk).required "claim_id" Decoder.text
    |>.required "policy_id" Decoder.text
    |>.required "description" Decoder.text
    |>.required "status" statusOfJson
    |>.required "history" (Decoder.list StatusChange.ofJson)
    |>.defaulted "revision" 0 Decoder.uint64).decode

end Claim

namespace ClaimView

def toJson (v : ClaimView) : Json :=
  .record
    [("claim_id", .str v.claimId), ("policy_id", .str v.policyId), ("status", statusJson v.status),
     ("allowed_next", Json.ofStrings v.allowedNext), ("changes", .ofCount v.changes)]

end ClaimView

namespace OpenClaim

def toJson (r : OpenClaim) : Json :=
  .record [("policy_id", .str r.policyId), ("description", .str r.description)]

def ofJson : Decoder OpenClaim :=
  ((Shape.of OpenClaim.mk).required "policy_id" Decoder.text
    |>.required "description" Decoder.text).decode

end OpenClaim

namespace ClaimTransition

def toJson (r : ClaimTransition) : Json :=
  .record [("status", statusJson r.status), ("note", Json.orNull .str r.note)]

def ofJson : Decoder ClaimTransition :=
  ((Shape.of ClaimTransition.mk).required "status" statusOfJson
    |>.optional "note" Decoder.text).decode

end ClaimTransition

end PolicyDesk
