import PolicyDesk.Proofs.Assessment.Admissible
import PolicyDesk.Proofs.Claims.Numbers
import PolicyDesk.Proofs.Desk.Effects

/-!
# Single visits

What one visit makes of a desk, and two routes by which a score is taken in.
-/

namespace PolicyDesk

/-! ## Calls that do all or nothing

A call that fails leaves the desk as it was, and a call that is accepted puts the record that its
reply shows in one place and touches no other (`Session.all_or_nothing`).

The number of a claim is drawn before the claim is stored, so an opening that failed afterwards
would have spent it. It does not fail: as long as there are numbers left, the one drawn is free
(`Desk.CountedTo.free`). -/

section

/-- The record that an accepted reply shows: itself, or the file that carries the outcome. The reply
to an evaluation shows no file, but the outcome is the one that the file carries. -/
inductive Reply.Gives : Reply → Stored → Prop
  | file (f : UnderwritingFile) : Gives (.file (.ok f)) (.file f)
  | outcome (f : UnderwritingFile) (outcome : EvaluationOutcome Float) :
    f.evaluation = some outcome → f.status = outcome.recommendedStatus →
    Gives (.outcome (.ok outcome)) (.file f)
  | claim (c : Claim) : Gives (.claim (.ok c)) (.claim c)

/-- What a visit makes of a desk, as far as its reply tells. There is no third way between the desk
as it was and the one record. -/
structure AllOrNothing (v : Visit) (desk : Desk) (reply : Reply) (after : Desk) : Prop where
  /-- The whole desk: the records, the referrals that the carrier took and the next claim number. -/
  failed : reply.isOk = false → after = desk
  queried : v.call.isQuery = true → after = desk
  /-- One record is added or replaced, and it is the one given. -/
  stored : reply.isOk = true → v.call.isQuery = false → ∃ record, reply.Gives record ∧
    desk.stored? record.id ≠ some record ∧
    ∀ id, after.stored? id = if id = record.id then some record else desk.stored? id

namespace Amends

variable {config : EvaluationConfig Float} {c : Call} {a : Amendment}

theorem gives (h : Amends config c a) : a.reply.Gives a.changed := by
  cases h with
  | evaluation _ f _ _ => exact .outcome _ _ rfl rfl
  | decision _ _ _ _ _ _ _ _ _ => exact .file _
  | move _ _ _ _ _ => exact .claim _

private theorem not_query (h : Amends config c a) : c.isQuery = false := by
  cases h <;> rfl

private theorem changed_ne (h : Amends config c a) : a.source ≠ a.changed := by
  intro heq
  have hrevision := h.revision_eq
  rw [← heq] at hrevision
  exact absurd hrevision (by simp)

end Amends

variable {config : EvaluationConfig Float} {v : Visit} {desk after : Desk} {reply : Reply}

/-- What a visit does when the next claim number is free. That it is free is needed for the one
effect that would spend a number in vain. -/
private theorem Effect.allOrNothing (hfree : ¬ desk.Taken desk.nextClaim)
    (h : Effect config v desk reply after) : AllOrNothing v desk reply after := by
  cases h with
  | kept _ hidle =>
    refine ⟨fun _ => rfl, fun _ => rfl, fun hok hquery => ?_⟩
    obtain hq | hfail := hidle
    · exact absurd hq (by simp [hquery])
    · exact absurd hok (by simp [hfail])
  | wasted request e _ _ hi =>
    -- An opening draws its number before it inserts, and only a number that is taken is refused.
    have htaken := Desk.taken_of_insert_error hi
    rw [Desk.stored?_drawNumber] at htaken
    exact absurd htaken hfree
  | openedFile a _ ha hi =>
    refine ⟨fun hfail => (nomatch hfail), fun hq => ?_, fun _ _ => ?_⟩
    · cases hc : v.call <;> simp [hc, Call.isQuery, Call.assessment?] at hq ha
    · have hnone := Desk.free_of_insert hi
      exact ⟨_, .file _, by rw [hnone]; nofun, Desk.stored?_of_insert hi⟩
  | openedClaim request _ hc _ hi =>
    refine ⟨fun hfail => (nomatch hfail), fun hq => ?_, fun _ _ => ?_⟩
    · simp [hc, Call.isQuery] at hq
    · have hnone := Desk.free_of_insert hi
      rw [Desk.stored?_drawNumber] at hnone
      refine ⟨_, .claim _, by rw [hnone]; nofun, fun id => ?_⟩
      rw [Desk.stored?_of_insert hi, Desk.stored?_drawNumber]
  | amended a _ ha _ hs _ hu =>
    refine ⟨fun hfail => ?_, fun hq => ?_, fun _ _ => ?_⟩
    · exact absurd (Call.isOk_of_amends ha) (by simp [hfail])
    · exact absurd hq (by simp [ha.not_query])
    · -- The carrier may have been told before the update, which leaves the records alone.
      refine ⟨_, ha.gives, ?_, fun id => ?_⟩
      · rw [ha.id_eq, hs]
        exact fun heq => ha.changed_ne (Option.some.inj heq)
      · rw [Desk.stored?_of_update hu, Desk.stored?_told]

namespace Session

/-- **All or nothing.** As long as there are claim numbers left, a visit that fails changes nothing,
and one that is accepted changes the one record that it gives. It holds after any session, failures
in it included. -/
theorem all_or_nothing (visits : List Visit) (hleft : numbersTaken visits < UInt64.size)
    (v : Visit) :
    AllOrNothing v (run config visits).desk (v.serve config (run config visits).desk).1
      (v.serve config (run config visits).desk).2 := by
  have hcount : (run config visits).desk.CountedTo (numbersTaken visits) :=
    countedTo (Nat.le_of_lt hleft)
  have heffect : Effect config v (run config visits).desk _ _ := serve_effect (keyed visits)
  exact heffect.allOrNothing (hcount.free hleft)

/-- After a submission and a claim, the carrier refuses a referral: the decision fails, and the desk
is the one before it. Another claim is opened then. -/
theorem all_or_nothing_of_refusal :
    let visits : List Visit :=
      [⟨.submit ⟨"pol-1", 90, none, [⟨"CLAIMS_HISTORY", 90, 1, none⟩], "ana", none⟩ ⟨0, 0⟩,
          .ok ()⟩,
       ⟨.openClaim ⟨"pol-1", "hail"⟩, .ok ()⟩]
    let refused : Visit := ⟨.decide "pol-1" ⟨"REFERRED_TO_CARRIER", none, none⟩ "ana" ⟨60, 0⟩,
      .error (.transport "connection refused")⟩
    let opening : Visit := ⟨.openClaim ⟨"pol-1", "theft"⟩, .ok ()⟩
    let desk := (run .standard visits).desk
    numbersTaken visits < UInt64.size ∧
      (refused.serve .standard desk).1.isOk = false ∧ (refused.serve .standard desk).2 = desk ∧
      (opening.serve .standard desk).1.isOk = true ∧
      AllOrNothing opening desk (opening.serve .standard desk).1
        (opening.serve .standard desk).2 := by
  intro visits refused opening desk
  have hleft : numbersTaken visits < UInt64.size := by decide
  have hfails : (refused.serve .standard desk).1.isOk = false := by decide +kernel
  have hrefused : AllOrNothing refused desk _ _ := all_or_nothing visits hleft refused
  exact ⟨hleft, hfails, hrefused.failed hfails, by decide +kernel,
    all_or_nothing visits hleft opening⟩

end Session

end

/-! ## Scoring goes the way of a submission

A request that is scored opens a file without being submitted. It comes to the same: the assessment
of a request, written as a submission (`Assessment.toInput`), makes that assessment again
(`Assessment.Valid.build_toInput`).

- **Programs** (`Underwriting.score_eq_submit`, `Underwriting.score_eq_throw`): over any store,
  scoring a request is submitting its assessment, or it fails before the store is asked.
- **Visits** (`EvaluationConfig.scoringRoute`): on any desk the two calls have the same reply and
  leave the same desk. -/

/-! ### Assessments as submissions -/

section

variable {α : Type} [Quantity α]

/-- The assessment as it would be submitted, with the code of every severity declared. It is what
the JSON of the assessment is read as. -/
def Assessment.toInput (a : Assessment α) : AssessmentInput α where
  policyId := a.policyId
  riskScore := a.riskScore.value
  severity := some a.severity.code
  factors := a.factors.map Factor.toInput
  assessedBy := a.assessedBy
  assessmentDate := some a.assessmentDate

/-- An assessment that keeps the rules is made again of its own submission, whatever the clock. Its
date is its own, so `now` is not used. -/
theorem Assessment.Valid.build_toInput {a : Assessment α} (h : a.Valid) (now : Instant) :
    a.toInput.build now = .ok a := by
  refine AssessmentInput.build_eq_ok.mpr
    ⟨?_, h.policyTrimmed.symm, h.assessorTrimmed.symm, rfl⟩
  exact
    { policy := h.policyNotBlank
      assessor := h.assessorNotBlank
      score := rfl
      severity := declares_some.mpr (by rw [a.severity_eq]; exact Severity.names_code _)
      someFactor := fun hnil => h.someFactor (List.map_eq_nil_iff.mp hnil)
      factors := forall₂_toInput_makes a.factors
      kinds := h.kinds
      weights := h.weights }

theorem EvaluationConfig.valid_of_assess {config : EvaluationConfig α} {request : ScoreRequest α}
    {now : Instant} {a : Assessment α} (h : config.assess request now = .ok a) : a.Valid := by
  obtain ⟨input, -, hbuild⟩ := build_of_assess h
  exact Assessment.valid_of_build hbuild

end

/-! ### Programs -/

section

variable {m : Type → Type} [Monad m] [RecordStore UnderwritingFile m]
  {config : EvaluationConfig Float} {request : ScoreRequest Float} {now : Instant}

/-- Over any store, scoring a request is submitting its assessment. The time of the submission may
be any. -/
theorem Underwriting.score_eq_submit {a : Assessment Float}
    (h : config.assess request now = .ok a) (later : Instant) :
    (score config request now : ExceptT UnderwritingError m UnderwritingFile) =
      submit a.toInput later := by
  have hbuild := (EvaluationConfig.valid_of_assess h).build_toInput later
  rw [score, submit, h, hbuild]

/-- Over any store, a request without an assessment fails and the store is not asked. It fails with
the report and with nothing else. -/
theorem Underwriting.score_eq_throw [LawfulMonad m] {report : Report}
    (h : config.assess request now = .error report) :
    (score config request now : ExceptT UnderwritingError m UnderwritingFile) =
      throw (.violations report) := by
  rw [score, h]
  apply ExceptT.ext
  simp [require, attempt, Except.mapError, ExceptT.run_bind]

end

/-! ### Visits -/

/-- Scoring a request goes the way of a submission. The first two fields are the same fact, of the
program and of a visit. -/
structure ScoringRoute (config : EvaluationConfig Float) (request : ScoreRequest Float)
    (now : Instant) : Prop where
  /-- Over any store, scoring is submitting the assessment of the request. -/
  program : ∀ a, config.assess request now = .ok a → ∀ later,
    ∀ (m : Type → Type) [Monad m] [RecordStore UnderwritingFile m],
      (Underwriting.score config request now : ExceptT UnderwritingError m UnderwritingFile) =
        Underwriting.submit a.toInput later
  /-- On a desk it has the same reply and leaves the same desk. -/
  submitted : ∀ a, config.assess request now = .ok a → ∀ later carrier desk,
    Visit.serve config ⟨.score request now, carrier⟩ desk =
      Visit.serve config ⟨.submit a.toInput later, carrier⟩ desk
  refused : ∀ report, config.assess request now = .error report → ∀ carrier desk,
    Visit.serve config ⟨.score request now, carrier⟩ desk =
      (.file (.error (.violations report)), desk)
  /-- Whatever is stored by scoring would be stored by a submission. -/
  stored : ∀ carrier desk f,
    (Visit.serve config ⟨.score request now, carrier⟩ desk).1 = .file (.ok f) →
    ∀ later, f.assessment.toInput.build later = .ok f.assessment ∧
      Visit.serve config ⟨.submit f.assessment.toInput later, carrier⟩ desk =
        Visit.serve config ⟨.score request now, carrier⟩ desk

section

variable {config : EvaluationConfig Float} {request : ScoreRequest Float} {now : Instant}
  {carrier : CarrierAnswer} {desk : Desk}

theorem serve_score {a : Assessment Float} (h : config.assess request now = .ok a)
    (later : Instant) :
    Visit.serve config ⟨.score request now, carrier⟩ desk =
      Visit.serve config ⟨.submit a.toInput later, carrier⟩ desk := by
  show ((Reply.file <$> (Underwriting.score config request now).run : DeskM Reply).run
    carrier).run desk = _
  rw [Underwriting.score_eq_submit h later]
  rfl

theorem serve_score_refused {report : Report} (h : config.assess request now = .error report) :
    Visit.serve config ⟨.score request now, carrier⟩ desk =
      (.file (.error (.violations report)), desk) := by
  show ((Reply.file <$> (Underwriting.score config request now).run : DeskM Reply).run
    carrier).run desk = _
  rw [Underwriting.score_eq_throw h]
  rfl

/-- A file that scoring gives is a new one, for the assessment of the request. So the reply shows
the assessment and not a copy from the store. -/
private theorem assess_of_serve_score {f : UnderwritingFile}
    (h : (Visit.serve config ⟨.score request now, carrier⟩ desk).1 = .file (.ok f)) :
    config.assess request now = .ok f.assessment := by
  cases ha : config.assess request now with
  | error report =>
    rw [serve_score_refused ha] at h
    cases h
  | ok a =>
    have hcall : (Call.score request now).assessment? config = some a := toOption_eq_some.mpr ha
    rw [Visit.serve_eq_play, Call.script_of_assessment hcall, Call.opening] at h
    cases hinsert : desk.insert (.file (.ofAssessment a)) with
    | error e =>
      rw [Call.play_insert_error hinsert] at h
      cases h
    | ok desk' =>
      rw [Call.play_insert_ok hinsert] at h
      cases h
      rfl

end

/-- **Scoring.** It is the submission of the assessment that the request has, in its result and in
what it leaves; a request without one stores nothing. No desk tells the two calls apart. -/
theorem EvaluationConfig.scoringRoute (config : EvaluationConfig Float)
    (request : ScoreRequest Float) (now : Instant) : ScoringRoute config request now where
  program _ h later _ _ _ := Underwriting.score_eq_submit h later
  submitted _ h later _ _ := serve_score h later
  refused _ h _ _ := serve_score_refused h
  stored carrier desk f hf later := by
    have h := assess_of_serve_score hf
    exact ⟨(valid_of_assess h).build_toInput later, (serve_score h later).symm⟩

/-- The usual weights add up to one in doubles too, so a request with all four kinds is stored. -/
example : (Visit.serve .standard ⟨.score ⟨" pol-1 ", fun _ => some 62.5, "ana"⟩ ⟨0, 0⟩, .ok ()⟩
    .empty).1.isOk = true := by
  decide +kernel

end PolicyDesk
