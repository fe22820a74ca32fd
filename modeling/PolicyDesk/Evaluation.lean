import PolicyDesk.Assessment
import PolicyDesk.Workflow

/-!
# Scoring and evaluation

A score request is made an assessment with the configured weights, and an assessment is evaluated:
it gets a recommended status, the reasons for it, and the share of each factor in its score.
-/

namespace PolicyDesk

/-! ## Evaluation settings

The weight of each kind of factor, and the two rules that can be switched off: referring high risks
to the carrier, and escalating a low composite score that hides a high factor. Weights are taken as
they are given; scoring checks them. -/

/-- One number for each kind of factor. Nothing is asked of the numbers here; a weight out of range
is found when a score meets it. -/
structure FactorWeights (α : Type) where
  claimsHistory : α
  locationRisk : α
  coverageAmount : α
  businessType : α
  deriving DecidableEq

namespace FactorWeights

variable {α : Type}

/-- The weight of a kind. -/
def get (w : FactorWeights α) : FactorType → α
  | .claimsHistory => w.claimsHistory
  | .locationRisk => w.locationRisk
  | .coverageAmount => w.coverageAmount
  | .businessType => w.businessType

/-- The usual weights, which add up to one. -/
def standard [Quantity α] : FactorWeights α where
  claimsHistory := Quantity.decimal 35 2
  locationRisk := Quantity.decimal 25 2
  coverageAmount := Quantity.decimal 20 2
  businessType := Quantity.decimal 20 2

end FactorWeights

/-- The settings hold for all policies alike and stay the same while the service runs. -/
structure EvaluationConfig (α : Type) where
  factorWeights : FactorWeights α
  /-- High risks go to the carrier instead of an underwriter. -/
  referHighRiskToCarrier : Bool
  /-- A low composite score with a high factor is reviewed. -/
  escalateOnHighFactor : Bool
  deriving DecidableEq

/-- The usual weights with both rules on. -/
def EvaluationConfig.standard {α : Type} [Quantity α] : EvaluationConfig α :=
  ⟨.standard, true, true⟩

/-- The scores supplied for a policy, at most one for each kind of factor. A kind may be left out;
the weights of the others then count for more. -/
structure ScoreRequest (α : Type) where
  policyId : PolicyId
  score? : FactorType → Option α
  assessedBy : String

/-- The kinds supplied and their scores, in the order of the kinds. The order in which a request
names them is lost. -/
def ScoreRequest.scores {α : Type} (r : ScoreRequest α) : List (FactorType × α) :=
  FactorType.all.filterMap fun kind => (r.score? kind).map (kind, ·)

theorem ScoreRequest.mem_scores {α : Type} {r : ScoreRequest α} {kind : FactorType} {x : α} :
    (kind, x) ∈ r.scores ↔ r.score? kind = some x := by
  simp [scores, FactorType.mem_all]

/-- The request with the score of one kind replaced. -/
def ScoreRequest.withScore {α : Type} (r : ScoreRequest α) (kind : FactorType) (score : α) :
    ScoreRequest α :=
  { r with score? := fun k => if k = kind then some score else r.score? k }

/-! ## Scoring

The composite score of a request is the mean of its scores under the configured weights, divided by
the weight actually supplied, so that a partial set is scored on the same scale as a complete one.

- `weighFactor` makes a factor of one score, or names what is wrong with it.
- `compositeScore` weighs all of them; the division is reached only when every factor is good and
  their weights have a positive total.
- `EvaluationConfig.assess` makes an assessment of the result, held to the rules of a submission. -/

section

variable {α : Type} [Quantity α]

/-- The field that holds the score of a kind. It is also the lead of what is wrong with the weight
of the kind. -/
def scoreField (kind : FactorType) : String := "factor_scores." ++ kind.code

/-- A score with its configured weight, as a factor. The score is checked before the weight, and
only the first of the two faults is named. -/
def weighFactor (weights : FactorWeights α) (entry : FactorType × α) :
    Except (List Violation) (Factor α) :=
  let field := scoreField entry.1
  match Score.ofValue entry.2 with
  | .error e => .error [⟨field, e.message⟩]
  | .ok score =>
    match Factor.make entry.1 score (weights.get entry.1) with
    | .ok factor => .ok factor
    | .error report =>
      .error (report.violations.map fun v => ⟨field ++ "." ++ v.field, v.message⟩)

/-- The scores of a list of factors times their weights, added from left to right. -/
def weightedSum (factors : List (Factor α)) : α :=
  Quantity.total (factors.map fun f => f.score.value * f.weight.value)

/-- The weighted mean, rounded to hundredths and kept between 0 and 100. The mean lies between the
bounds anyway but for rounding, which the clamp takes back. -/
def composite (factors : List (Factor α)) : α :=
  Quantity.clamp (Quantity.whole 0) (Quantity.whole 100)
    (Quantity.hundredths (weightedSum factors / totalWeight factors))

/-- The factors of a request and their composite score. All scores are looked at before anything is
refused, so the report names each that is wrong. -/
def compositeScore (weights : FactorWeights α) (scores : List (FactorType × α)) :
    Except Report (List (Factor α) × Score α) :=
  let results := scores.map (weighFactor weights)
  let factors := results.filterMap Except.toOption
  let found :=
    (if scores.isEmpty then [⟨"factor_scores", "at least one factor score is required"⟩] else []) ++
    results.flatMap (fun r => match r with | .ok _ => [] | .error found => found) ++
    (if ¬ factors.isEmpty ∧ totalWeight factors ≤ Quantity.whole 0 then
      [⟨"factor_scores", "configured weights for these factors are all zero"⟩] else [])
  -- Only here is anything divided: the total weight is not zero.
  if found.isEmpty then
    match Score.ofValue (composite factors) with
    | .ok score => .ok (factors, score)
    | .error e => .error ⟨[⟨"factor_scores", e.message⟩]⟩
  else .error ⟨found⟩

/-- The assessment of a request. The names of the policy and the assessor are checked only now,
after the scores. -/
def EvaluationConfig.assess (config : EvaluationConfig α) (request : ScoreRequest α)
    (now : Instant) : Except Report (Assessment α) :=
  match compositeScore config.factorWeights request.scores with
  | .ok (factors, score) =>
    Assessment.ofParts request.policyId score factors request.assessedBy now
  | .error report => .error report

end

/-! ## Evaluation outcomes

An evaluation recommends a status for an assessment and gives its reasons.

- `recommend` is the policy: LOW is approved unless a HIGH factor is escalated, MEDIUM is reviewed,
  HIGH is referred to the carrier or else reviewed.
- `contributions` breaks the assessment into the share of each factor in the composite score.
- `EvaluationConfig.evaluate` puts both into an `EvaluationOutcome`. -/

section

/-- The share of one factor in a composite score. It repeats the score, the weight and the severity
of the factor, so that it can be read alone. -/
structure ScoreComponent (α : Type) where
  factor : FactorType
  score : α
  weight : α
  contribution : α
  severity : Severity
  notes : String
  deriving DecidableEq

/-- What an evaluation recommends, and why. It depends on the assessment and the settings alone, not
on the status of the file. -/
structure EvaluationOutcome (α : Type) where
  policyId : PolicyId
  riskScore : α
  severity : Severity
  recommendedStatus : UnderwritingStatus
  reasons : List String
  components : List (ScoreComponent α)
  deriving DecidableEq

variable {α : Type} [Quantity α]

/-! ### The recommendation -/

/-- The reason that a high factor gives. -/
def highFactorReason (f : Factor α) : String :=
  f.kind.label ++ " scored " ++ f.score.text ++ " (HIGH)"

/-- The reasons of the high factors, in the order of the factors. Each of them is named, also when
the composite score is low. -/
def highFactorReasons (a : Assessment α) : List String :=
  (a.factors.filter fun f => f.severity = .high).map highFactorReason

/-- The reason that every recommendation gives first. It shows the score with two places beside the
band of the full score. -/
def bandReason (a : Assessment α) : String :=
  "composite score " ++ a.riskScore.text ++ " falls in the " ++ a.severity.code ++ " band"

def referralReason : String := "high risk placements are referred to the carrier"

/-- The recommended status and its reasons. The first reason is always the band; one after it
says what else decided. -/
def recommend (config : EvaluationConfig α) (a : Assessment α) :
    UnderwritingStatus × List String :=
  let band := bandReason a
  match a.severity with
  | .low =>
    let high := highFactorReasons a
    if config.escalateOnHighFactor && !high.isEmpty then (.manualReview, band :: high)
    else (.autoApproved, [band])
  | .medium => (.manualReview, [band])
  | .high =>
    if config.referHighRiskToCarrier then (.referredToCarrier, [band, referralReason])
    else (.manualReview, [band])

/-! ### The shares -/

/-- The share of a factor: its score times its weight over the total weight, in hundredths. Without
a positive total there is nothing to share, and the part is zero. -/
def contribution (sum : α) (f : Factor α) : α :=
  if Quantity.whole 0 < sum then
    Quantity.hundredths (f.score.value * f.weight.value / sum)
  else Quantity.whole 0

/-- The part of a factor, given the total weight of the assessment. -/
def ScoreComponent.ofFactor (sum : α) (f : Factor α) : ScoreComponent α where
  factor := f.kind
  score := f.score.value
  weight := f.weight.value
  contribution := PolicyDesk.contribution sum f
  severity := f.severity
  notes := f.kind.label ++ " scored " ++ f.score.text ++ " (" ++ f.severity.code ++
    ") at weight " ++ Quantity.fixed 2 f.weight.value

/-- The shares of all factors of an assessment, in order. -/
def contributions (a : Assessment α) : List (ScoreComponent α) :=
  a.factors.map (ScoreComponent.ofFactor (totalWeight a.factors))

/-! ### The outcome -/

/-- The outcome of an assessment under the settings. Evaluating once more gives the same. -/
def EvaluationConfig.evaluate (config : EvaluationConfig α) (a : Assessment α) :
    EvaluationOutcome α :=
  let (status, reasons) := recommend config a
  { policyId := a.policyId
    riskScore := a.riskScore.value
    severity := a.severity
    recommendedStatus := status
    reasons := reasons
    components := contributions a }

/-- The outcome in one line. It is what a file shows as its rationale until there is a decision. -/
def EvaluationOutcome.summary (o : EvaluationOutcome α) : String :=
  o.severity.label ++ " risk (" ++ Quantity.fixed 2 o.riskScore ++ "), recommended " ++
    o.recommendedStatus.code

end

end PolicyDesk
