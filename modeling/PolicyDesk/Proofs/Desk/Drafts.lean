import PolicyDesk.Claims
import PolicyDesk.Underwriting

/-!
# Drafts of records

What an evaluation, a decision and a status change make of the record that was read.
-/

namespace PolicyDesk

/-! ## What a draft of a file is

- **Evaluation** (`evaluated_eq_ok`) and **decision** (`decided_eq_ok`): there is a draft exactly
  when the file is open and the gate has the move, and the draft is then given in full.
- **Final files** (`evaluated_of_terminal`, `decided_of_terminal`): there is no draft of one.
- **Referral** (`evaluationReferral_eq_some`, `decisionReferral_eq_some`): the draft refers the file
  exactly when it moves it to the carrier. -/

section

open WorkflowStatus (allowedNext)

namespace UnderwritingFile

/-- The file after an evaluation. Only these three fields differ from those of the file. -/
def withOutcome (f : UnderwritingFile) (outcome : EvaluationOutcome Float) : UnderwritingFile :=
  { f with
    status := outcome.recommendedStatus
    evaluation := some outcome
    revision := f.revision + 1 }

/-- The file after a decision. The earlier decisions stay in front of it. -/
def withDecision (f : UnderwritingFile) (decision : Decision) : UnderwritingFile :=
  { f with
    status := decision.status
    decisions := f.decisions ++ [decision]
    revision := f.revision + 1 }

@[simp] theorem policyId_ofAssessment (a : Assessment Float) :
    (ofAssessment a).policyId = a.policyId := rfl

@[simp] theorem policyId_withOutcome (f : UnderwritingFile) (outcome : EvaluationOutcome Float) :
    (f.withOutcome outcome).policyId = f.policyId := rfl

@[simp] theorem policyId_withDecision (f : UnderwritingFile) (decision : Decision) :
    (f.withDecision decision).policyId = f.policyId := rfl

theorem ensureOpen_eq_ok {f : UnderwritingFile} :
    f.ensureOpen = .ok () ↔ f.status.isTerminal = false := by
  simp [ensureOpen]

private theorem ensureMove_eq_ok {f : UnderwritingFile} {status : UnderwritingStatus} :
    f.ensureMove status = .ok () ↔ status ∈ allowedNext f.status := by
  rw [← checkTransition_eq_ok, ensureMove]
  cases checkTransition f.status status with
  | ok _ => exact ⟨fun _ => rfl, fun _ => rfl⟩
  | error _ => constructor <;> intro h <;> cases h

theorem evaluated_eq_ok {f : UnderwritingFile} {config : EvaluationConfig Float}
    {draft : Draft (EvaluationOutcome Float)} :
    f.evaluated config = .ok draft ↔
      f.status.isTerminal = false ∧
      (config.evaluate f.assessment).recommendedStatus ∈ allowedNext f.status ∧
      draft = ⟨f.withOutcome (config.evaluate f.assessment), f.revision,
        evaluationReferral (config.evaluate f.assessment), config.evaluate f.assessment⟩ := by
  rw [← ensureOpen_eq_ok, ← ensureMove_eq_ok, evaluated]
  cases f.ensureOpen with
  | error e => simp [bind, Except.bind]
  | ok u =>
    cases hm : f.ensureMove (config.evaluate f.assessment).recommendedStatus with
    | error e => simp [bind, Except.bind, hm]
    | ok u => simp [bind, Except.bind, pure, Except.pure, hm, withOutcome, eq_comm]

theorem decided_eq_ok {f : UnderwritingFile} {policyId : PolicyId} {decision : Decision}
    {draft : Draft UnderwritingFile} :
    f.decided policyId decision = .ok draft ↔
      f.status.isTerminal = false ∧ decision.status ∈ allowedNext f.status ∧
      draft = ⟨f.withDecision decision, f.revision, f.decisionReferral policyId decision,
        f.withDecision decision⟩ := by
  rw [← ensureOpen_eq_ok, ← ensureMove_eq_ok, decided]
  cases f.ensureOpen with
  | error e => simp [bind, Except.bind]
  | ok u =>
    cases f.ensureMove decision.status with
    | error e => simp [bind, Except.bind]
    | ok u => simp [bind, Except.bind, pure, Except.pure, withDecision, eq_comm]

private theorem ensureOpen_of_terminal {f : UnderwritingFile} (h : f.status.isTerminal = true) :
    f.ensureOpen = .error (.finalized f.policyId f.status) := by
  rw [ensureOpen, if_pos h]

/-- A final file is not evaluated. The gate is not asked: such a file is refused as final. -/
theorem evaluated_of_terminal {f : UnderwritingFile} (h : f.status.isTerminal = true)
    (config : EvaluationConfig Float) :
    f.evaluated config = .error (.finalized f.policyId f.status) := by
  rw [evaluated, ensureOpen_of_terminal h]
  rfl

/-- A final file is not decided on. So a final file is refused in the same words, whatever is tried
on it. -/
theorem decided_of_terminal {f : UnderwritingFile} (h : f.status.isTerminal = true)
    (policyId : PolicyId) (decision : Decision) :
    f.decided policyId decision = .error (.finalized f.policyId f.status) := by
  rw [decided, ensureOpen_of_terminal h]
  rfl

theorem evaluationReferral_eq_some {outcome : EvaluationOutcome Float} {r : Referral} :
    evaluationReferral outcome = some r ↔
      outcome.recommendedStatus = .referredToCarrier ∧
      r = ⟨outcome.policyId, outcome.riskScore, outcome.severity, outcome.reasons⟩ := by
  unfold evaluationReferral
  split <;> simp_all [eq_comm]

theorem decisionReferral_eq_some {f : UnderwritingFile} {policyId : PolicyId} {decision : Decision}
    {r : Referral} :
    f.decisionReferral policyId decision = some r ↔
      decision.status = .referredToCarrier ∧
      r = ⟨policyId, f.assessment.riskScore.value, f.assessment.severity,
        decision.notes.toList ++ decision.conditions⟩ := by
  unfold decisionReferral
  split <;> simp_all [eq_comm]

end UnderwritingFile

end

/-! ## What a status change makes of a claim

There is a changed claim exactly when the gate has the move, and it is then given in full: one entry
more in the history, the status of that entry and the next revision (`moved_eq_ok`). -/

section

open WorkflowStatus (allowedNext)

namespace Claim

/-- The entry that a status change leaves in the history of a claim. It takes the status of the
claim as its source. -/
def change (c : Claim) (request : ClaimTransition) (now : Instant) : StatusChange :=
  ⟨c.status, request.status, keepNote request.note, now⟩

/-- The claim after a status change. Its status is the target of the entry, so the two cannot
disagree. -/
def withChange (c : Claim) (entry : StatusChange) : Claim :=
  { c with
    status := entry.target
    history := c.history ++ [entry]
    revision := c.revision + 1 }

@[simp] theorem claimId_ofRequest (claimId : ClaimId) (request : OpenClaim) :
    (ofRequest claimId request).claimId = claimId := rfl

theorem moved_eq_ok {c c' : Claim} {request : ClaimTransition} {now : Instant} :
    c.moved request now = .ok c' ↔
      request.status ∈ allowedNext c.status ∧ c' = c.withChange (c.change request now) := by
  rw [← checkTransition_eq_ok, moved]
  cases checkTransition c.status request.status with
  | error e => simp [bind, Except.bind]
  | ok u => simp [bind, Except.bind, pure, Except.pure, withChange, change, eq_comm]

end Claim

end

end PolicyDesk
