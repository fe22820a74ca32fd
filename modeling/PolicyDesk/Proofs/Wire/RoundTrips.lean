import PolicyDesk.Proofs.Double.Bounds
import PolicyDesk.Proofs.Json
import PolicyDesk.Proofs.Underwriting.Bands
import PolicyDesk.Proofs.Wire.Severities
import PolicyDesk.Proofs.Workflow
import PolicyDesk.Wire

/-!
# Records and their JSON

Every record of the desk is read back from what is written of it.
-/

namespace PolicyDesk

/-! ## Records read back from JSON

What is written of a record is decoded to that record, in every field. Texts and codes always are; a
number must be finite, since others are written as null, and an instant must be one that its text
names (`Instant.Readable`).

- **Requests** (`ProposedDecision.ofJson_toJson`, `ScoreRequest.ofJson_toJson`,
  `ClaimTransition.ofJson_toJson`) and **settings** (`EvaluationConfig.ofJson_toJson`).
- **Results** (`Decision.ofJson_toJson`, `EvaluationOutcome.ofJson_toJson`,
  `Referral.ofJson_toJson`, `StatusChange.ofJson_toJson`).
- **Records that are stored** (`UnderwritingFile.ofJson_toJson`, `Claim.ofJson_toJson`): a file is
  read back when its assessment was built by the rules and its evaluation is finite. -/

section

/-! ### Fields -/

/-- The text of the instant names it. That every instant is so is left to the library of the clock.
-/
def Instant.Readable (t : Instant) : Prop := read? t.text = some t

instance (t : Instant) : Decidable t.Readable := inferInstanceAs (Decidable (_ = _))

private theorem Decoder.instant_toJson {t : Instant} (h : t.Readable) :
    Decoder.instant t.toJson = .ok t := by
  show Decoder.ofOption (Instant.read? t.text) = .ok t
  rw [h]
  rfl

theorem Severity.ofJson_toJson (s : Severity) : ofJson s.toJson = .ok s := by cases s <;> rfl

theorem FactorType.code_inj (s t : FactorType) (h : s.code = t.code) : s = t :=
  eq_of_sameCode s t (by rw [h, Text.sameCode_refl])

theorem FactorType.ofJson_toJson (t : FactorType) : ofJson t.toJson = .ok t :=
  Decoder.code_code mem_all code_inj t

theorem statusOfJson_statusJson {σ : Type} [WorkflowStatus σ] [LawfulWorkflow σ] (s : σ) :
    statusOfJson (statusJson s) = .ok s :=
  Decoder.code_code LawfulWorkflow.mem_all (fun _ _ => code_inj.mp) s

open Decoder (float_ofFloat list_map list_ofStrings orNull_eq_some orNull_ofStrings orNull_orNull
  orNull_text)
open Shape (Reads)

/-! ### Requests and settings -/

theorem ProposedDecision.ofJson_toJson (p : ProposedDecision) : ofJson p.toJson = .ok p :=
  (Reads.of ProposedDecision.mk
    |>.present "decision" (by simp) (rfl : Decoder.text (.str p.decision) = _)
    |>.member? "notes" (by simp) (fun notes _ => orNull_text notes)
    |>.member? "conditions" (by simp) (fun ss _ => orNull_ofStrings ss)).decode

/-- Every number of the request is finite. Other numbers are written as null. -/
def ScoreRequest.Finite (r : ScoreRequest Float) : Prop :=
  ∀ kind x, r.score? kind = some x → x.isFinite = true

theorem ScoreRequest.ofJson_toJson {r : ScoreRequest Float} (h : r.Finite) :
    ofJson r.toJson = .ok r := by
  have hscores : Decoder.codeMap FactorType.all FactorType.code Decoder.float
      (.record (r.scores.map fun entry => (entry.1.code, .ofFloat entry.2))) = .ok r.score? :=
    Decoder.codeMap_record FactorType.mem_all FactorType.code_inj (fun _ _ => mem_scores)
      fun entry hentry => float_ofFloat (h entry.1 entry.2 (mem_scores.mp hentry))
  exact (Reads.of ScoreRequest.mk
    |>.present "policy_id" (by simp) (rfl : Decoder.text (.str r.policyId) = _)
    |>.present "factor_scores" (by simp) hscores
    |>.present "assessed_by" (by simp) (rfl : Decoder.text (.str r.assessedBy) = _)).decode

/-- The weights are finite. -/
def EvaluationConfig.Finite (c : EvaluationConfig Float) : Prop :=
  ∀ kind, (c.factorWeights.get kind).isFinite = true

theorem FactorWeights.ofJson_toJson {w : FactorWeights Float}
    (h : ∀ kind, (w.get kind).isFinite = true) : ofJson w.toJson = .ok w :=
  (Reads.of FactorWeights.mk
    |>.present "claims_history" (by simp) (float_ofFloat (h .claimsHistory))
    |>.present "location_risk" (by simp) (float_ofFloat (h .locationRisk))
    |>.present "coverage_amount" (by simp) (float_ofFloat (h .coverageAmount))
    |>.present "business_type" (by simp) (float_ofFloat (h .businessType))).decode

theorem EvaluationConfig.ofJson_toJson {c : EvaluationConfig Float} (h : c.Finite) :
    ofJson c.toJson = .ok c :=
  (Reads.of EvaluationConfig.mk
    |>.present "factor_weights" (by simp) (FactorWeights.ofJson_toJson h)
    |>.present "refer_high_risk_to_carrier" (by simp)
      (rfl : Decoder.bool (.bool c.referHighRiskToCarrier) = _)
    |>.present "escalate_on_high_factor" (by simp)
      (rfl : Decoder.bool (.bool c.escalateOnHighFactor) = _)).decode

theorem ClaimTransition.ofJson_toJson (r : ClaimTransition) : ofJson r.toJson = .ok r :=
  (Reads.of ClaimTransition.mk
    |>.present "status" (by simp) (statusOfJson_statusJson r.status)
    |>.present "note" (by simp) (orNull_orNull fun note _ => orNull_text note)).decode

/-! ### Results -/

theorem Decision.ofJson_toJson {d : Decision} (h : d.decidedAt.Readable) :
    ofJson d.toJson = .ok d :=
  (Reads.of Decision.mk
    |>.present "status" (by simp) (statusOfJson_statusJson d.status)
    |>.member? "notes" (by simp) (fun notes _ => orNull_text notes)
    |>.present "conditions" (by simp) (list_ofStrings d.conditions)
    |>.present "decided_by" (by simp) (rfl : Decoder.text (.str d.decidedBy) = _)
    |>.present "decided_at" (by simp) (Decoder.instant_toJson h)).decode_of_eq (by simp)

theorem ScoreComponent.ofJson_toJson {c : ScoreComponent Float} (h : c.Finite) :
    ofJson c.toJson = .ok c :=
  (Reads.of ScoreComponent.mk
    |>.present "factor" (by simp) c.factor.ofJson_toJson
    |>.present "score" (by simp) (float_ofFloat h.score)
    |>.present "weight" (by simp) (float_ofFloat h.weight)
    |>.present "contribution" (by simp) (float_ofFloat h.contribution)
    |>.present "severity" (by simp) c.severity.ofJson_toJson
    |>.present "notes" (by simp) (rfl : Decoder.text (.str c.notes) = _)).decode

theorem EvaluationOutcome.ofJson_toJson {o : EvaluationOutcome Float} (h : o.Finite) :
    ofJson o.toJson = .ok o := by
  have hcomponents := list_map fun c hc => ScoreComponent.ofJson_toJson (h.components c hc)
  exact (Reads.of EvaluationOutcome.mk
    |>.present "policy_id" (by simp) (rfl : Decoder.text (.str o.policyId) = _)
    |>.present "risk_score" (by simp) (float_ofFloat h.riskScore)
    |>.present "severity" (by simp) o.severity.ofJson_toJson
    |>.present "recommended_status" (by simp) (statusOfJson_statusJson o.recommendedStatus)
    |>.present "reasons" (by simp) (list_ofStrings o.reasons)
    |>.present "components" (by simp) hcomponents).decode

theorem Referral.ofJson_toJson {r : Referral} (h : r.riskScore.isFinite = true) :
    ofJson r.toJson = .ok r :=
  (Reads.of Referral.mk
    |>.present "policy_id" (by simp) (rfl : Decoder.text (.str r.policyId) = _)
    |>.present "risk_score" (by simp) (float_ofFloat h)
    |>.present "severity" (by simp) r.severity.ofJson_toJson
    |>.present "reasons" (by simp) (list_ofStrings r.reasons)).decode

theorem StatusChange.ofJson_toJson {c : StatusChange} (h : c.changedAt.Readable) :
    ofJson c.toJson = .ok c :=
  (Reads.of StatusChange.mk
    |>.present "from" (by simp) (statusOfJson_statusJson c.source)
    |>.present "to" (by simp) (statusOfJson_statusJson c.target)
    |>.member? "note" (by simp) (fun note _ => orNull_text note)
    |>.present "changed_at" (by simp) (Decoder.instant_toJson h)).decode

/-! ### Records that are stored -/

/-- The instants in the file. An outcome has none. -/
def UnderwritingFile.times (f : UnderwritingFile) : List Instant :=
  f.assessment.assessmentDate :: f.decisions.map (·.decidedAt)

/-- The instants in the claim. -/
def Claim.times (c : Claim) : List Instant := c.history.map (·.changedAt)

/-- An assessment that was built by the rules passes them again. -/
theorem Assessment.ofJson_toJson {a : Assessment Float} (hbuilt : a.Built)
    (hdate : a.assessmentDate.Readable) (now : Instant) : ofJson now a.toJson = .ok a := by
  rw [toJson_eq_jsonWith, ofJson_jsonWith hbuilt.valid hdate]
  exact ⟨rfl, a.severity.names_code, a.allName_codes⟩

theorem UnderwritingFile.ofJson_toJson {f : UnderwritingFile} (hbuilt : f.assessment.Built)
    (hfinite : ∀ o, f.evaluation = some o → o.Finite) (htimes : ∀ t ∈ f.times, t.Readable)
    (now : Instant) : ofJson now f.toJson = .ok f := by
  have hassessment := Assessment.ofJson_toJson hbuilt (htimes _ List.mem_cons_self) now
  -- An outcome that is missing is written as null, which no outcome is.
  have hevaluation : Decoder.orNull EvaluationOutcome.ofJson
      (Json.orNull EvaluationOutcome.toJson f.evaluation) = .ok f.evaluation :=
    orNull_orNull fun o ho =>
      orNull_eq_some (fun h => nomatch h) (EvaluationOutcome.ofJson_toJson (hfinite o ho))
  have hdecisions := list_map fun d hd => Decision.ofJson_toJson
    (htimes _ (List.mem_cons_of_mem _ (List.mem_map_of_mem hd)))
  exact (Reads.of UnderwritingFile.mk
    |>.present "assessment" (by simp) hassessment
    |>.present "status" (by simp) (statusOfJson_statusJson f.status)
    |>.present "evaluation" (by simp) hevaluation
    |>.present "decisions" (by simp) hdecisions
    |>.present "revision" (by simp) (rfl : Decoder.uint64 (.ofUInt64 f.revision) = _)).decode

theorem Claim.ofJson_toJson {c : Claim} (htimes : ∀ t ∈ c.times, t.Readable) :
    ofJson c.toJson = .ok c := by
  have hhistory := list_map fun change hchange => StatusChange.ofJson_toJson
    (htimes _ (List.mem_map_of_mem hchange))
  exact (Reads.of Claim.mk
    |>.present "claim_id" (by simp) (rfl : Decoder.text (.str c.claimId) = _)
    |>.present "policy_id" (by simp) (rfl : Decoder.text (.str c.policyId) = _)
    |>.present "description" (by simp) (rfl : Decoder.text (.str c.description) = _)
    |>.present "status" (by simp) (statusOfJson_statusJson c.status)
    |>.present "history" (by simp) hhistory
    |>.present "revision" (by simp) (rfl : Decoder.uint64 (.ofUInt64 c.revision) = _)).decode

end

/-! ## Records are read back

What is written of a record is decoded to the same record, field for field
(`Desk.Reached.readBack`).

- **Stored records** (`Desk.ReadBack`): every file and claim of a desk that is reached. The
  assessment of a file was built by the rules (`Desk.Reached.built`) and passes them again, and its
  evaluation has only finite numbers (`Desk.Reached.finite_evaluation`). When it is read, the clock
  does not matter.
- **Other records** (`ReadBack`): requests, settings, decisions, outcomes, referrals and status
  changes, whatever they hold, as long as their numbers are finite.

Instants are those that their texts name (`Instant.Readable`). -/

/-! ### Stored records -/

private theorem Call.built_of_assessment {config : EvaluationConfig Float} {c : Call}
    {a : Assessment Float} (h : c.assessment? config = some a) : a.Built := by
  cases c with
  | submit input now => exact .submitted input now (toOption_eq_some.mp h)
  | score request now =>
    obtain ⟨input, -, hbuild⟩ := EvaluationConfig.build_of_assess (toOption_eq_some.mp h)
    exact .submitted input now hbuild
  | _ => cases h

section

variable {config : EvaluationConfig Float} {desk : Desk} (h : desk.Reached config)
  {k : PolicyId} {f : UnderwritingFile} (hf : desk.files.find? k = some f)
include h hf

/-- The assessment of a stored file was built by the rules. It was so when the file was opened, and
no change touches it. -/
theorem Desk.Reached.built : f.assessment.Built :=
  h.file (P := fun f => f.assessment.Built) (fun _ _ => Call.built_of_assessment) (fun _ hf => hf)
    (fun _ _ _ _ _ _ hf => hf) hf

/-- The evaluation of a stored file has only finite numbers. -/
theorem Desk.Reached.finite_evaluation {o : EvaluationOutcome Float} (ho : f.evaluation = some o) :
    o.Finite := by
  rw [h.evaluation_eq hf ho]
  exact config.finite_evaluate f.assessment

end

/-- The file is read back, and its assessment is accepted again. -/
structure UnderwritingFile.ReadBack (f : UnderwritingFile) : Prop where
  decoded : ∀ now, ofJson now f.toJson = .ok f
  accepted : ∀ now, ∃ input, AssessmentInput.ofJson f.assessment.toJson = .ok input ∧
    input.build now = .ok f.assessment

/-- Every record of the desk is read back, if its instants are. -/
structure Desk.ReadBack (desk : Desk) : Prop where
  files : ∀ k f, desk.files.find? k = some f → (∀ t ∈ f.times, t.Readable) → f.ReadBack
  claims : ∀ k c, desk.claims.find? k = some c → (∀ t ∈ c.times, t.Readable) →
    Claim.ofJson c.toJson = .ok c

/-- An assessment is decoded as a submission that is accepted. -/
theorem Assessment.ofJson_eq_ok {now : Instant} {json : Json} {a : Assessment Float} :
    ofJson now json = .ok a ↔
      ∃ input, AssessmentInput.ofJson json = .ok input ∧ input.build now = .ok a := by
  unfold ofJson
  cases AssessmentInput.ofJson json with
  | error e => exact ⟨fun h => (nomatch h), fun ⟨_, h, _⟩ => (nomatch h)⟩
  | ok input =>
    show (input.build now).mapError DecodeError.rules = .ok a ↔ _
    cases hbuild : input.build now <;> simp [Except.mapError, hbuild]

private theorem UnderwritingFile.readBack_of_built {f : UnderwritingFile}
    (hbuilt : f.assessment.Built)
    (hfinite : ∀ o, f.evaluation = some o → o.Finite) (htimes : ∀ t ∈ f.times, t.Readable) :
    f.ReadBack where
  decoded now := ofJson_toJson hbuilt hfinite htimes now
  accepted now :=
    Assessment.ofJson_eq_ok.mp (Assessment.ofJson_toJson hbuilt (htimes _ List.mem_cons_self) now)

/-! ### Other records -/

/-- Every record with finite numbers is read back, if its instants are. -/
structure ReadBack : Prop where
  proposals : ∀ p : ProposedDecision, ProposedDecision.ofJson p.toJson = .ok p
  decisions : ∀ d : Decision, d.decidedAt.Readable → Decision.ofJson d.toJson = .ok d
  requests : ∀ r : ScoreRequest Float, r.Finite → ScoreRequest.ofJson r.toJson = .ok r
  settings : ∀ c : EvaluationConfig Float, c.Finite → EvaluationConfig.ofJson c.toJson = .ok c
  outcomes : ∀ o : EvaluationOutcome Float, o.Finite → EvaluationOutcome.ofJson o.toJson = .ok o
  referrals : ∀ r : Referral, r.riskScore.isFinite = true → Referral.ofJson r.toJson = .ok r
  changes : ∀ c : StatusChange, c.changedAt.Readable → StatusChange.ofJson c.toJson = .ok c
  transitions : ∀ r : ClaimTransition, ClaimTransition.ofJson r.toJson = .ok r

/-- **Reading back.** What is written of a record is decoded to that record. The second half is
about all values, whether or not they come from a desk. -/
theorem Desk.Reached.readBack {config : EvaluationConfig Float} {desk : Desk}
    (h : desk.Reached config) : desk.ReadBack ∧ PolicyDesk.ReadBack := by
  constructor
  · exact
      { files := fun k f hf htimes =>
          UnderwritingFile.readBack_of_built (h.built hf)
            (fun _ ho => h.finite_evaluation hf ho) htimes
        claims := fun _ _ _ htimes => Claim.ofJson_toJson htimes }
  · exact
      { proposals := ProposedDecision.ofJson_toJson
        decisions := fun _ => Decision.ofJson_toJson
        requests := fun _ => ScoreRequest.ofJson_toJson
        settings := fun _ => EvaluationConfig.ofJson_toJson
        outcomes := fun _ => EvaluationOutcome.ofJson_toJson
        referrals := fun _ => Referral.ofJson_toJson
        changes := fun _ => StatusChange.ofJson_toJson
        transitions := ClaimTransition.ofJson_toJson }

/-- A file with an evaluation and a decision, a claim with a note, and requests that leave out what
others leave empty. -/
theorem Desk.Reached.readBack_of_referral :
    let visits : List Visit :=
      [⟨.submit ⟨"pol-1", 85, none, [⟨"CLAIMS_HISTORY", 85, 0.7, none⟩], "ana", none⟩ ⟨0, 0⟩,
          .ok ()⟩,
       ⟨.evaluate "pol-1", .ok ()⟩,
       ⟨.decide "pol-1" ⟨"APPROVED", none, some ["sprinklers"]⟩ "ana" ⟨60, 500⟩, .ok ()⟩,
       ⟨.openClaim ⟨"pol-1", "hail"⟩, .ok ()⟩,
       ⟨.transition "clm-000001" ⟨.underReview, some "photos"⟩ ⟨120, 0⟩, .ok ()⟩]
    let desk := (Session.run .standard visits).desk
    ∃ f c, desk.files.find? "pol-1" = some f ∧ f.evaluation.isSome ∧ f.decisions.length = 1 ∧
      desk.claims.find? "clm-000001" = some c ∧ c.history.length = 1 ∧
      f.ReadBack ∧ Claim.ofJson c.toJson = .ok c ∧
      (∀ notes conditions, let p : ProposedDecision := ⟨"APPROVED", notes, conditions⟩
        ProposedDecision.ofJson p.toJson = .ok p) ∧
      EvaluationConfig.ofJson (EvaluationConfig.toJson .standard) = .ok .standard := by
  intro visits desk
  have hfile : (desk.files.find? "pol-1").map (fun f => (f.evaluation.isSome, f.decisions.length,
      decide (∀ t ∈ f.times, t.Readable))) = some (true, 1, true) := by
    decide +kernel
  have hclaim : (desk.claims.find? "clm-000001").map (fun c => (c.history.length,
      decide (∀ t ∈ c.times, t.Readable))) = some (1, true) := by
    decide +kernel
  have hweights : (EvaluationConfig.standard : EvaluationConfig Float).Finite := by
    intro kind
    cases kind <;> decide +kernel
  obtain ⟨f, hf, heq⟩ := Option.map_eq_some_iff.mp hfile
  obtain ⟨hevaluated, hdecided, htimes⟩ : f.evaluation.isSome = true ∧ f.decisions.length = 1 ∧
      ∀ t ∈ f.times, t.Readable := by
    simpa using heq
  obtain ⟨c, hc, heq⟩ := Option.map_eq_some_iff.mp hclaim
  obtain ⟨hmoved, hchanged⟩ : c.history.length = 1 ∧ ∀ t ∈ c.times, t.Readable := by
    simpa using heq
  have hreached : desk.Reached .standard := .served visits
  obtain ⟨hstored, hothers⟩ := hreached.readBack
  exact ⟨f, c, hf, hevaluated, hdecided, hc, hmoved, hstored.files _ f hf htimes,
    hstored.claims _ c hc hchanged, fun _ _ => hothers.proposals _, hothers.settings _ hweights⟩

end PolicyDesk
