import PolicyDesk.Score
import PolicyDesk.Text
import PolicyDesk.Time

/-!
# Factors and assessments

What is submitted about a risk, the rules that it is held to, and what is kept of it once it has
passed them.
-/

namespace PolicyDesk

/-! ## Risk factors

A factor is one weighted contributor to a composite score. There are four kinds, in a fixed order.

- `FactorInput` is a factor as submitted, with nothing checked yet.
- `FactorInput.read` checks one: the kind, the score, the weight, and the declared severity, which
  may be absent but must otherwise be the band of the score.
- A `Factor` keeps the severity that it was made with, which is that of its score and no other. -/

section

/-! ### Kinds -/

/-- The four kinds of factor, in the order of `FactorType.all`. -/
inductive FactorType
  | claimsHistory
  | locationRisk
  | coverageAmount
  | businessType
  deriving DecidableEq, Repr

/-- A text that is no kind of factor. -/
structure UnknownFactorType where
  raw : String
  deriving DecidableEq, Repr

def UnknownFactorType.message (e : UnknownFactorType) : String :=
  "unknown risk factor type '" ++ e.raw ++ "'"

namespace FactorType

def all : List FactorType := [.claimsHistory, .locationRisk, .coverageAmount, .businessType]

def code : FactorType → String
  | claimsHistory => "CLAIMS_HISTORY"
  | locationRisk => "LOCATION_RISK"
  | coverageAmount => "COVERAGE_AMOUNT"
  | businessType => "BUSINESS_TYPE"

def label : FactorType → String
  | claimsHistory => "Claims history"
  | locationRisk => "Location risk"
  | coverageAmount => "Coverage amount"
  | businessType => "Business type"

/-- Reads the code of a kind; a refusal carries the text as it was given. -/
def parse (raw : String) : Except UnknownFactorType FactorType :=
  match Text.ofCode? all code raw with
  | some t => .ok t
  | none => .error ⟨raw⟩

theorem mem_all (t : FactorType) : t ∈ all := by cases t <;> simp [all]

end FactorType

/-! ### Factors -/

/-- A factor as submitted. Its kind and severity are texts, and its numbers may be any. -/
structure FactorInput (α : Type) where
  kind : String
  score : α
  weight : α
  severity : Option String
  deriving DecidableEq

/-- A factor that passed its checks. Its severity is stored when it is made, and always matches its
score. -/
structure Factor (α : Type) [Quantity α] where
  kind : FactorType
  score : Score α
  weight : Weight α
  severity : Severity
  severity_eq : severity = score.severity
  deriving DecidableEq

variable {α : Type} [Quantity α]

/-- A factor is told by its kind, its score and its weight. -/
@[ext] theorem Factor.ext {f g : Factor α} (hkind : f.kind = g.kind) (hscore : f.score = g.score)
    (hweight : f.weight = g.weight) : f = g := by
  obtain ⟨_, _, _, _, rfl⟩ := f
  obtain ⟨_, _, _, _, rfl⟩ := g
  cases hkind
  cases hscore
  cases hweight
  rfl

/-- The factor as it would be submitted. The severity is declared, and by its proof it is the band
that the check asks for. -/
def Factor.toInput (f : Factor α) : FactorInput α where
  kind := f.kind.code
  score := f.score.value
  weight := f.weight.value
  severity := some f.severity.code

/-- The factor of these parts. Its severity is the band of its score. -/
def Factor.graded (kind : FactorType) (score : Score α) (weight : Weight α) : Factor α where
  kind := kind
  score := score
  weight := weight
  severity := score.severity
  severity_eq := rfl

/-- A factor is made of its own parts. -/
theorem Factor.graded_parts (f : Factor α) : Factor.graded f.kind f.score f.weight = f :=
  Factor.ext rfl rfl rfl

/-- A factor from a kind, a score and a bare weight. The score is typed already, so the weight alone
can be refused. -/
def Factor.make (kind : FactorType) (score : Score α) (weight : α) : Except Report (Factor α) :=
  match Weight.ofValue weight with
  | .ok w => .ok (.graded kind score w)
  | .error e => .error ⟨[⟨"weight", e.message⟩]⟩

/-- The message of a declared severity that is not the band of the score. The score stands in it
with two places, though the band is that of the full score. -/
def severityMismatch (declared : Severity) (score : Score α) : String :=
  "severity " ++ declared.code ++ " does not match score " ++ score.text ++
    " (expected " ++ score.severity.code ++ ")"

/-- A declared severity must be a severity, and the band of the score if there is one. A code that
is no severity is reported even when the score was refused; a mismatch then cannot be told. -/
def checkSeverity (declared : Option String) (score : Option (Score α)) : Except String Unit :=
  match declared with
  | none => .ok ()
  | some raw =>
    match Severity.parse raw, score with
    | .error e, _ => .error e.message
    | .ok _, none => .ok ()
    | .ok severity, some score =>
      if severity = score.severity then .ok () else .error (severityMismatch severity score)

/-- Checks a submitted factor. The violations found name their fields after `lead`; the factor is
there when all four checks pass. -/
def FactorInput.read (lead : String) (raw : FactorInput α) : List Violation × Option (Factor α) :=
  let kind := FactorType.parse raw.kind
  let score := Score.ofValue raw.score
  let weight := Weight.ofValue raw.weight
  -- Without a score the severity is only read, as there is no band to compare it with.
  let severity := checkSeverity raw.severity score.toOption
  let found :=
    Report.note (lead ++ "type") (·.message) kind ++
    Report.note (lead ++ "score") (·.message) score ++
    Report.note (lead ++ "weight") (·.message) weight ++
    Report.note (lead ++ "severity") id severity
  let factor :=
    match kind, score, weight, severity with
    | .ok kind, .ok score, .ok weight, .ok () => some (.graded kind score weight)
    | _, _, _, _ => none
  (found, factor)

/-- A submitted factor on its own. The fields of its violations bear no lead, as there is no list
around it. -/
def FactorInput.toFactor (raw : FactorInput α) : Except Report (Factor α) :=
  match raw.read "" with
  | (_, some factor) => .ok factor
  | (found, none) => .error ⟨found⟩

end

/-! ## Assessments

An assessment is one scoring pass for a policy: a composite score and the factors it rests on.

- `AssessmentInput` is an assessment as submitted. `examine` checks it in one pass and lists every
  broken rule in order; `build` makes an `Assessment` of it and `validate` gives only the report.
- `FactorScan` is what the pass over the factors has gathered so far: the broken rules, the factors
  accepted and the kinds among them. A factor whose kind was accepted before is reported and kept.
- When every factor is accepted and all four kinds occur, the weights must add up to one.
- `Assessment.ofParts` applies the same rules to parts that are typed already. -/

section

/-- What names a policy. -/
abbrev PolicyId := String

/-- An assessment as submitted. The severity may be left to the desk, and so may the date. -/
structure AssessmentInput (α : Type) where
  policyId : String
  riskScore : α
  severity : Option String
  factors : List (FactorInput α)
  assessedBy : String
  assessmentDate : Option Instant
  deriving DecidableEq

/-- An assessment that passed its checks. Its severity, the band of the composite score, is stored
when it is built. -/
structure Assessment (α : Type) [Quantity α] where
  policyId : PolicyId
  riskScore : Score α
  severity : Severity
  factors : List (Factor α)
  assessedBy : String
  assessmentDate : Instant
  severity_eq : severity = riskScore.severity
  deriving DecidableEq

variable {α : Type} [Quantity α]

/-- The first factor of a kind. An assessment has at most one of each, so the first is the only one.
-/
def Assessment.factor? (a : Assessment α) (kind : FactorType) : Option (Factor α) :=
  a.factors.find? fun f => f.kind = kind

/-! ### The pass over the factors -/

/-- What the pass over the factors has gathered. It is the state of a loop over the list, from the
first factor to the last. -/
structure FactorScan (α : Type) [Quantity α] where
  violations : List Violation
  /-- The factors accepted, in the order of submission. -/
  factors : List (Factor α)
  /-- The kinds of the factors accepted, each once. -/
  seen : List FactorType

namespace FactorScan

def start : FactorScan α := ⟨[], [], []⟩

/-- Where the fields of the factor at an index are named. The index counts from zero, over all
factors submitted and not over those accepted. -/
def lead (index : Nat) : String := "factors[" ++ toString index ++ "]."

/-- Takes in the next factor. A factor that fails its own check is not compared with the others, so
it is never called a duplicate. -/
def step (scan : FactorScan α) (entry : FactorInput α × Nat) : FactorScan α :=
  let place := lead entry.2
  match entry.1.read place with
  | (found, none) => { scan with violations := scan.violations ++ found }
  | (found, some factor) =>
    let repeated := decide (factor.kind ∈ scan.seen)
    let duplicate :=
      if repeated then [⟨place ++ "type", "duplicate risk factor " ++ factor.kind.code⟩] else []
    { violations := scan.violations ++ found ++ duplicate
      factors := scan.factors ++ [factor]
      seen := if repeated then scan.seen else scan.seen ++ [factor.kind] }

def ofInputs (inputs : List (FactorInput α)) : FactorScan α :=
  inputs.zipIdx.foldl step start

end FactorScan

/-! ### The rules -/

/-- A text that must not be blank. -/
def requireText (field message text : String) : List Violation :=
  if Text.isBlank text then [⟨field, message⟩] else []

/-- The sum of the weights of a list of factors, from left to right. The order is that of the list,
which matters to a sum of doubles. -/
def totalWeight (factors : List (Factor α)) : α :=
  Quantity.total (factors.map (·.weight.value))

/-- How far the weights of a complete set may be from one in total. -/
def weightTolerance : α := Quantity.decimal 1 6

/-- The weights of a complete set of factors add up to one. It is only asked of a set that has a
factor of each kind. -/
def checkTotalWeight (factors : List (Factor α)) : List Violation :=
  let sum := totalWeight factors
  if Quantity.differBy weightTolerance sum (Quantity.whole 1) then
    [⟨"factors", "factor weights must sum to 1.0, found " ++ Quantity.fixed 4 sum⟩]
  else []

namespace AssessmentInput

/-- Checks a submitted assessment: its score and factors, or the report of every broken rule. Every
rule is checked even when one before it failed. The weights are summed only when all factors were
accepted and each kind occurs. -/
def examine (input : AssessmentInput α) : Except Report (Score α × List (Factor α)) :=
  let score := Score.ofValue input.riskScore
  let scan := FactorScan.ofInputs input.factors
  -- No factor was refused, and no kind is missing.
  let complete :=
    scan.factors.length = input.factors.length ∧ scan.seen.length = FactorType.all.length
  let found :=
    requireText "policy_id" "policy id is required" input.policyId ++
    requireText "assessed_by" "assessor is required" input.assessedBy ++
    Report.note "risk_score" (·.message) score ++
    Report.note "severity" id (checkSeverity input.severity score.toOption) ++
    (if input.factors.isEmpty then
      [⟨"factors", "a complete assessment needs at least one risk factor"⟩] else []) ++
    scan.violations ++
    (if complete then checkTotalWeight scan.factors else [])
  match score, found with
  | .ok score, [] => .ok (score, scan.factors)
  | _, found => .error ⟨found⟩

/-- The assessment that a submission makes; `now` dates one that has no date of its own. The names
are trimmed here, after they were found not to be blank. -/
def build (input : AssessmentInput α) (now : Instant) : Except Report (Assessment α) :=
  match input.examine with
  | .ok (score, factors) => .ok
    { policyId := Text.trim input.policyId
      riskScore := score
      severity := score.severity
      factors := factors
      assessedBy := Text.trim input.assessedBy
      assessmentDate := input.assessmentDate.getD now
      severity_eq := rfl }
  | .error report => .error report

/-- The report on a submission. It is the report that `build` would refuse with, or the clean one.
-/
def validate (input : AssessmentInput α) : Report :=
  match input.examine with
  | .ok _ => .clean
  | .error report => report

end AssessmentInput

/-- An assessment of typed parts, held to the rules of a submission. No severity is declared, so
that check cannot fail; the names, the list and the weights still can. -/
def Assessment.ofParts (policyId : PolicyId) (score : Score α) (factors : List (Factor α))
    (assessedBy : String) (date : Instant) : Except Report (Assessment α) :=
  AssessmentInput.build
    { policyId := policyId
      riskScore := score.value
      severity := none
      factors := factors.map Factor.toInput
      assessedBy := assessedBy
      assessmentDate := some date }
    date

end

end PolicyDesk
