import PolicyDesk.Evaluation
import PolicyDesk.Store
import PolicyDesk.Text
import PolicyDesk.Time
import PolicyDesk.Workflow

/-!
# Decisions and files

The decisions of underwriters, and the files that they are made on.
-/

namespace PolicyDesk

/-! ## Decisions

An underwriter proposes a decision; the rules turn it into a `Decision` or into a report.

- The proposal must name a status, a decline needs notes of at least ten characters, and no
  condition may be blank (`ProposedDecision.check`).
- An accepted decision also names the underwriter. Its texts are trimmed and blank notes are
  dropped. -/

/-- A decision as proposed. The decision is a text, and the underwriter is not part of it: both are
settled when it is taken. -/
structure ProposedDecision where
  decision : String
  notes : Option String
  conditions : Option (List String)
  deriving DecidableEq, Repr

/-- A decision that passed its checks. What it keeps is trimmed; the conditions stay in the order of
the proposal. -/
structure Decision where
  status : UnderwritingStatus
  notes : Option String
  conditions : List String
  decidedBy : String
  decidedAt : Instant
  deriving DecidableEq, Repr

/-- The fewest characters that explain a decline. Characters are counted, not bytes. -/
def minDeclineNotes : Nat := 10

namespace ProposedDecision

/-- The length of the notes, the blanks around them left out. Absent notes count as empty ones. -/
def notesLength (p : ProposedDecision) : Nat :=
  match p.notes with
  | some notes => (Text.trim notes).length
  | none => 0

/-- A decline is explained. No other status needs notes, and a text that names none is reported
elsewhere. -/
def checkNotes (p : ProposedDecision) (status : Option UnderwritingStatus) : List Violation :=
  if status = some .declined ∧ p.notesLength < minDeclineNotes then
    [⟨"notes", "declining requires notes of at least " ++ toString minDeclineNotes ++
      " characters"⟩]
  else []

/-- No condition is blank. Each blank one is named by its place, counted from zero. -/
def checkConditions (p : ProposedDecision) : List Violation :=
  ((p.conditions.getD []).zipIdx.filter fun entry => Text.isBlank entry.1).map fun entry =>
    ⟨"conditions[" ++ toString entry.2 ++ "]", "condition must not be blank"⟩

/-- The status proposed, if the text names one, and the rules that the proposal breaks. All three
rules are checked, whichever of them fail. -/
def check (p : ProposedDecision) : Option UnderwritingStatus × List Violation :=
  let status : Except UnknownStatus UnderwritingStatus := parseStatus p.decision
  (status.toOption,
    Report.note "decision" (·.message) status ++ p.checkNotes status.toOption ++ p.checkConditions)

/-- The report on a proposal. It does not ask for the underwriter, who is only known when the
decision is taken. -/
def validate (p : ProposedDecision) : Report := ⟨p.check.2⟩

end ProposedDecision

namespace Decision

/-- Notes as a decision keeps them: trimmed, and absent when nothing is left. -/
def keepNotes (notes : Option String) : Option String :=
  (notes.map Text.trim).filter fun s => !s.isEmpty

/-- The decision that a proposal makes when an underwriter takes it. A missing underwriter is
reported last, beside whatever the proposal breaks. -/
def ofProposal (p : ProposedDecision) (decidedBy : String) (decidedAt : Instant) :
    Except Report Decision :=
  let (status, found) := p.check
  let found := found ++
    if Text.isBlank decidedBy then [⟨"decided_by", "decision must name the underwriter"⟩] else []
  match status, found with
  | some status, [] => .ok
    { status := status
      notes := keepNotes p.notes
      conditions := (p.conditions.getD []).map Text.trim
      decidedBy := Text.trim decidedBy
      decidedAt := decidedAt }
  | _, found => .error ⟨found⟩

end Decision

/-! ## Underwriting files

A file holds the assessment of a policy, the status of its review, its evaluation and its decisions.

- `StatusView` is what a caller is shown of it.
- `UnderwritingFile.evaluated` and `UnderwritingFile.decided` say what an evaluation and a decision
  make of a file that was read: a `Draft`, to be written while the file is still at that revision.
- `pendingFiles` lists the files that await an underwriter, the oldest assessment first. -/

/-- The review of one policy, from its assessment on. The assessment never changes; the rest moves
with the revision. -/
structure UnderwritingFile where
  assessment : Assessment Float
  status : UnderwritingStatus
  evaluation : Option (EvaluationOutcome Float)
  /-- The decisions taken, the latest last. -/
  decisions : List Decision
  revision : UInt64
  deriving DecidableEq

/-- What a caller is shown of a file. The conditions are those of the latest decision, not of all.
-/
structure StatusView where
  policyId : PolicyId
  status : UnderwritingStatus
  severity : Severity
  riskScore : Float
  allowedNext : List String
  decisionRationale : String
  conditions : List String
  deriving DecidableEq

/-- A failure of an operation on files. The five causes are kept apart, since a caller is answered
differently for each. -/
inductive UnderwritingError
  | violations (report : Report)
  | transition (refusal : TransitionError)
  | finalized (policyId : PolicyId) (status : UnderwritingStatus)
  | store (failure : StoreError)
  | carrier (failure : CarrierError)
  deriving DecidableEq, Repr

def UnderwritingError.message : UnderwritingError → String
  | violations report => report.message
  | transition refusal => refusal.message
  | finalized policyId status =>
    "underwriting for " ++ policyId ++ " is final (" ++ status.code ++ ")"
  | store failure => failure.message
  | carrier failure => failure.message

/-- A change to a file that has been read and is not written yet. Nothing of it has happened: the
carrier has not been asked and the store has not changed. -/
structure Draft (β : Type) where
  /-- The file as it is to be stored, one revision on. -/
  file : UnderwritingFile
  /-- The revision that was read. -/
  expected : UInt64
  /-- What the carrier must be told before the file is written. -/
  referral : Option Referral
  /-- The answer to the caller once the file is written. -/
  answer : β

namespace UnderwritingFile

def policyId (f : UnderwritingFile) : PolicyId := f.assessment.policyId

instance : Kept UnderwritingFile where
  key f := f.policyId
  revision f := f.revision

/-- A new file. It awaits its review and has been through no change. -/
def ofAssessment (a : Assessment Float) : UnderwritingFile where
  assessment := a
  status := .pendingReview
  evaluation := none
  decisions := []
  revision := 0

def latestDecision? (f : UnderwritingFile) : Option Decision := f.decisions.getLast?

/-- The latest decision and who took it, else what the evaluation recommends. Once there is a
decision the evaluation is not shown any more, even a later one. -/
def decisionRationale (f : UnderwritingFile) : String :=
  match f.latestDecision? with
  | some decision =>
    let author := decision.status.code ++ " by " ++ decision.decidedBy
    match decision.notes with
    | some notes => author ++ ": " ++ notes
    | none => author
  | none =>
    match f.evaluation with
    | some outcome => outcome.summary
    | none => "pending evaluation"

/-- What a caller is shown of the file: all of it is read off the file as it stands. -/
def statusView (f : UnderwritingFile) : StatusView where
  policyId := f.policyId
  status := f.status
  severity := f.assessment.severity
  riskScore := f.assessment.riskScore.value
  allowedNext := allowedCodes f.status
  decisionRationale := f.decisionRationale
  conditions := (f.latestDecision?.map (·.conditions)).getD []

/-- A final file takes no further work. It is asked before the graph is, so a final file is refused
as final and not for the missing edge. -/
def ensureOpen (f : UnderwritingFile) : Except UnderwritingError Unit :=
  if f.status.isTerminal then .error (.finalized f.policyId f.status) else .ok ()

/-- The gate of the status graph. A file that stays where it is fails it too. -/
def ensureMove (f : UnderwritingFile) (status : UnderwritingStatus) :
    Except UnderwritingError Unit :=
  (checkTransition f.status status).mapError .transition

/-- What the carrier is told when an evaluation refers the file. The reasons are those of the
outcome. -/
def evaluationReferral (outcome : EvaluationOutcome Float) : Option Referral :=
  if outcome.recommendedStatus = .referredToCarrier then
    some ⟨outcome.policyId, outcome.riskScore, outcome.severity, outcome.reasons⟩
  else none

/-- What the carrier is told when a decision refers the file. The reasons are the notes, if there
are any, and the conditions after them. -/
def decisionReferral (f : UnderwritingFile) (policyId : PolicyId) (decision : Decision) :
    Option Referral :=
  if decision.status = .referredToCarrier then
    some
      { policyId := policyId
        riskScore := f.assessment.riskScore.value
        severity := f.assessment.severity
        reasons := decision.notes.toList ++ decision.conditions }
  else none

/-- The evaluation of a file that was read: it moves to the recommended status. The decisions stay,
and the outcome replaces that of an earlier evaluation. -/
def evaluated (f : UnderwritingFile) (config : EvaluationConfig Float) :
    Except UnderwritingError (Draft (EvaluationOutcome Float)) := do
  f.ensureOpen
  let outcome := config.evaluate f.assessment
  f.ensureMove outcome.recommendedStatus
  return {
    file := { f with
      status := outcome.recommendedStatus
      evaluation := some outcome
      revision := f.revision + 1 }
    expected := f.revision
    referral := evaluationReferral outcome
    answer := outcome }

/-- A decision on a file that was read under the given id: it moves to the decided status. The
evaluation stays, and the decision comes after those before it. -/
def decided (f : UnderwritingFile) (policyId : PolicyId) (decision : Decision) :
    Except UnderwritingError (Draft UnderwritingFile) := do
  f.ensureOpen
  f.ensureMove decision.status
  let file := { f with
    status := decision.status
    decisions := f.decisions ++ [decision]
    revision := f.revision + 1 }
  -- The file is stored only if the store still has the revision that was read.
  return {
    file := file
    expected := f.revision
    referral := f.decisionReferral policyId decision
    answer := file }

/-- The order of the queue: by the date of the assessment, then by policy id. No two files have the
same id, so the order leaves nothing open. -/
def queuesBefore (f g : UnderwritingFile) : Bool :=
  if f.assessment.assessmentDate = g.assessment.assessmentDate then
    decide (f.policyId ≤ g.policyId)
  else decide (f.assessment.assessmentDate ≤ g.assessment.assessmentDate)

end UnderwritingFile

/-- The files that await an underwriter, at most `limit` of them, the oldest assessment first. All
that are not final await one, also those that have been referred. -/
def pendingFiles (limit : Nat) (files : List UnderwritingFile) : List UnderwritingFile :=
  ((files.filter fun f => !f.status.isTerminal).mergeSort UnderwritingFile.queuesBefore).take limit

end PolicyDesk
