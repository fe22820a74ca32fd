import PolicyDesk.Proofs.Desk.Sessions
import PolicyDesk.Proofs.Underwriting.Changes

/-!
# Evaluations and what is shown of them

How often a file can be evaluated, to what outcome, and what its view says afterwards.
-/

namespace PolicyDesk

/-! ## The evaluations of a file

A file can be evaluated more than once, and its evaluations agree (`Session.evaluation_account`).

- **Admission** (`serve_evaluate`): a file that awaits its review admits any recommendation, so that
  only a carrier that refuses the referral keeps it from being evaluated.
- **Assessments** (`Session.found_later`): a file stays, with the assessment that it was opened
  with. -/

section

open WorkflowStatus (allowedNext)

/-- What a session tells of the evaluations of a file. The refusal of the carrier is the one way in
which an evaluation at PENDING_REVIEW can fail. -/
structure EvaluationAccount (config : EvaluationConfig Float) (visits : List Visit)
    (k : PolicyId) : Prop where
  /-- Neither the graph nor the end of its review keeps a file that awaits its review from being
  evaluated. -/
  admitted : ∀ (f : UnderwritingFile) (v : Visit),
    (Session.run config visits).desk.files.find? k = some f → f.status = .pendingReview →
    v.call = .evaluate k →
    let reply := (v.serve config (Session.run config visits).desk).1
    reply = .outcome (.ok (config.evaluate f.assessment)) ∨
      ∃ e, v.carrier = .error e ∧ reply = .outcome (.error (.carrier e))
  same : ∀ e ∈ (Session.run config visits).past, ∀ e' ∈ (Session.run config visits).past,
    ∀ outcome outcome', e.outcome? k = some outcome → e'.outcome? k = some outcome' →
      outcome = outcome'
  /-- Between two evaluations there is a decision. -/
  apart : ∀ before e between e' later,
    (Session.run config visits).past = before ++ e :: (between ++ e' :: later) →
    (e.outcome? k).isSome → (e'.outcome? k).isSome → ∃ d ∈ between, (d.decision? k).isSome
  /-- A file that was with the carrier, or was approved on conditions, is evaluated no more. -/
  once : ∀ before e later, (Session.run config visits).past = before ++ e :: later →
    (e.status? k = some .conditionallyApproved ∨ e.status? k = some .referredToCarrier) →
    ∀ e' ∈ later, e'.outcome? k = none

/-! ### Admission -/

private theorem UnderwritingStatus.mem_allowedNext_of_recommendable {s : UnderwritingStatus}
    (h : s ∈ recommendable) : s ∈ allowedNext UnderwritingStatus.pendingReview := by
  cases s <;> revert h <;> decide

section

variable {config : EvaluationConfig Float} {v : Visit} {desk : Desk} {k : PolicyId}
  {f : UnderwritingFile}

/-- A file that awaits its review is evaluated, unless the carrier refuses its referral. -/
theorem serve_evaluate (hk : desk.Keyed) (hf : desk.files.find? k = some f)
    (hs : f.status = .pendingReview) (hc : v.call = .evaluate k) :
    (v.serve config desk).1 = .outcome (.ok (config.evaluate f.assessment)) ∨
      ∃ e, v.carrier = .error e ∧ (v.serve config desk).1 = .outcome (.error (.carrier e)) := by
  have hstored : desk.stored? (.file k) = some (.file f) := Desk.stored?_file_eq_some.mpr hf
  obtain rfl : f.policyId = k := RecordId.file.inj (hk _ _ hstored)
  have hopen : f.status.isTerminal = false := by rw [hs]; rfl
  have hmove : (config.evaluate f.assessment).recommendedStatus ∈ allowedNext f.status := by
    rw [hs]
    exact UnderwritingStatus.mem_allowedNext_of_recommendable
      (EvaluationConfig.recommendedStatus_mem config f.assessment)
  have ha : Amends config v.call (.evaluation f (config.evaluate f.assessment)) := by
    rw [hc]
    exact .evaluation _ f hopen hmove
  have ht : v.call.target? = some (Stored.file f).id := by
    rw [hc]
    rfl
  by_cases hr : (UnderwritingFile.evaluationReferral (config.evaluate f.assessment)).isSome →
      v.carrier = .ok ()
  · obtain ⟨desk', -, hserve⟩ := serve_accepted ha ht hstored hr
    exact .inl (congrArg Prod.fst hserve)
  · obtain ⟨hsome, hne⟩ := Classical.not_imp.mp hr
    obtain ⟨r, hr⟩ := Option.isSome_iff_exists.mp hsome
    cases he : v.carrier with
    | ok u => exact absurd he hne
    | error e =>
      refine .inr ⟨e, rfl, ?_⟩
      rw [serve_refused ha ht hstored hr he, hc]
      rfl

end

/-! ### Assessments -/

namespace Session

variable {config : EvaluationConfig Float} {visits : List Visit} {k : PolicyId}
  {f : UnderwritingFile}

/-- A file stays, with its assessment. Later visits amend it, and an amendment keeps the assessment.
-/
theorem found_later (h : (run config visits).desk.files.find? k = some f) (more : List Visit) :
    ∃ g, (run config (visits ++ more)).desk.files.find? k = some g ∧
      g.assessment = f.assessment := by
  refine induction_from
    (P := fun desk => ∃ g, desk.files.find? k = some g ∧ g.assessment = f.assessment) visits
    ⟨f, h, rfl⟩ (fun desk v reply desk' _ ⟨g, hg, hsame⟩ he => ?_) more
  obtain ⟨g', hg', hsame'⟩ := he.file_kept hg
  exact ⟨g', hg', hsame'.trans hsame⟩

/-! ### The account -/

/-- The history of a file at an entry, and at the end. -/
private theorem history_at {before later : List Entry} {e : Entry}
    (h : (run config visits).past = before ++ e :: later) (hf : e.after.files.find? k = some f) :
    ∃ g, FileHistory config f.assessment (changes k (before ++ [e])) f ∧
      FileHistory config f.assessment (changes k (before ++ [e]) ++ changes k later) g := by
  obtain ⟨before', later', hvisits, hpast, hserve⟩ := past_split h
  have hrun : run config (before' ++ [e.visit]) = ⟨e.after, before ++ [e]⟩ := by
    rw [run_append_one, serve, hserve, hpast]
  have hfound : (run config (before' ++ [e.visit])).desk.files.find? k = some f := by rw [hrun, hf]
  obtain ⟨g, hg, hsame⟩ := found_later hfound later'
  have hall : before' ++ [e.visit] ++ later' = visits := by simp [hvisits]
  have hthen := history hfound
  have hnow := history hg
  rw [hrun] at hthen
  rw [hall, h, hsame, List.append_cons, changes_append] at hnow
  exact ⟨g, hthen, hnow⟩

/-- Both outcomes are computed of the one assessment of the file. -/
theorem same_outcome {e e' : Entry} (he : e ∈ (run config visits).past)
    (he' : e' ∈ (run config visits).past) {outcome outcome' : EvaluationOutcome Float}
    (ho : e.outcome? k = some outcome) (ho' : e'.outcome? k = some outcome') :
    outcome = outcome' := by
  have hmem := mem_changes.mpr ⟨e, he, Entry.change?_of_outcome? ho⟩
  have hmem' := mem_changes.mpr ⟨e', he', Entry.change?_of_outcome? ho'⟩
  obtain ⟨f, hf⟩ := found_of_changed hmem
  rw [(history hf).outcome_eq hmem, (history hf).outcome_eq hmem']

/-- Between the visits that evaluated a file there is one that took a decision on it. -/
private theorem decided_between {before between later : List Entry} {e e' : Entry}
    (hpast : (run config visits).past = before ++ e :: (between ++ e' :: later))
    (ho : (e.outcome? k).isSome) (ho' : (e'.outcome? k).isSome) :
    ∃ d ∈ between, (d.decision? k).isSome := by
  obtain ⟨outcome, ho⟩ := Option.isSome_iff_exists.mp ho
  obtain ⟨outcome', ho'⟩ := Option.isSome_iff_exists.mp ho'
  have hchanges : changes k (run config visits).past = changes k before ++
      .evaluation outcome :: (changes k between ++ .evaluation outcome' :: changes k later) := by
    rw [hpast, changes_append, changes_cons, changes_append, changes_cons,
      Entry.change?_of_outcome? ho, Entry.change?_of_outcome? ho']
    rfl
  have hmem : .evaluation outcome ∈ changes k (run config visits).past := by simp [hchanges]
  obtain ⟨f, hf⟩ := found_of_changed hmem
  -- On the list of changes the decision is between the two evaluations.
  obtain ⟨d, hd⟩ := (history hf).decision_between hchanges
  obtain ⟨x, hx, hchange⟩ := mem_changes.mp hd
  exact ⟨x, hx, Option.isSome_of_mem (Entry.decision?_of_change? hchange)⟩

/-- After a visit that left the file past its referral none evaluates it. The histories at the entry
and at the end differ by the later changes, none of which is an evaluation. -/
private theorem not_evaluated_after {before later : List Entry} {e e' : Entry}
    (hpast : (run config visits).past = before ++ e :: later) {s : UnderwritingStatus}
    (hstatus : e.status? k = some s) (hs : s.pastReferral = true) (he' : e' ∈ later) :
    e'.outcome? k = none := by
  obtain ⟨f, hf, rfl⟩ := Option.map_eq_some_iff.mp hstatus
  obtain ⟨g, hthen, hnow⟩ := history_at hpast hf
  rw [Option.eq_none_iff_forall_ne_some]
  intro outcome ho
  have hmem : .evaluation outcome ∈ changes k later :=
    mem_changes.mpr ⟨e', he', Entry.change?_of_outcome? ho⟩
  obtain ⟨d, hd⟩ := (hthen.evaluation_not_mem hs hnow).2 _ hmem
  cases hd

/-- **Evaluations agree.** They have one outcome, with a decision between any two of them, and come
before the file is with the carrier. -/
theorem evaluation_account (config : EvaluationConfig Float) (visits : List Visit) (k : PolicyId) :
    EvaluationAccount config visits k where
  admitted _ _ hf hs hc := serve_evaluate (keyed visits) hf hs hc
  same _ he _ he' _ _ ho ho' := same_outcome he he' ho ho'
  apart _ _ _ _ _ hpast ho ho' := decided_between hpast ho ho'
  once _ _ _ hpast hstatus _ he' :=
    hstatus.elim (fun h => not_evaluated_after hpast h rfl he')
      (fun h => not_evaluated_after hpast h rfl he')

/-- A file that is taken back for its review is evaluated again. -/
example :
    let visits : List Visit :=
      [⟨.submit ⟨"pol-1", 70, none, [⟨"CLAIMS_HISTORY", 70, 1, none⟩], "ana", none⟩ ⟨0, 0⟩,
          .ok ()⟩,
       ⟨.evaluate "pol-1", .ok ()⟩,
       ⟨.decide "pol-1" ⟨"PENDING_DOCUMENTS", none, none⟩ "ana" ⟨60, 0⟩, .ok ()⟩,
       ⟨.decide "pol-1" ⟨"PENDING_REVIEW", none, none⟩ "ana" ⟨120, 0⟩, .ok ()⟩,
       ⟨.evaluate "pol-1", .ok ()⟩]
    (run .standard visits).past.map (fun e => (e.outcome? "pol-1").isSome) =
      [false, true, false, false, true] := by
  decide +kernel

end Session

end

/-! ## What a view says of a status

A view says who decided on a file last, and of a file without a decision what its evaluation came to
(`Session.rationale_account`). This tells how the file got its status if it was decided last, or was
never decided on. A file that was evaluated after a decision is still shown with the decision
(`RationaleAccount.overtaken`). -/

/-- The notes of a decision as a view shows them. -/
def Decision.shownNotes (d : Decision) : String :=
  match d.notes with
  | some notes => ": " ++ notes
  | none => ""

/-- The risk that an evaluation found, as its summary starts. -/
def EvaluationOutcome.risk (outcome : EvaluationOutcome Float) : String :=
  outcome.severity.label ++ " risk (" ++ Quantity.fixed 2 outcome.riskScore ++ "), "

theorem EvaluationOutcome.summary_eq (outcome : EvaluationOutcome Float) :
    outcome.summary = outcome.risk ++ "recommended " ++ outcome.recommendedStatus.code := by
  have hsplit : "), recommended " = "), " ++ "recommended " := by decide
  rw [summary, hsplit, risk, ← String.append_assoc]

namespace UnderwritingFile

variable {f : UnderwritingFile}

private theorem decisionRationale_of_decided {d : Decision} (h : f.decisions.getLast? = some d) :
    f.decisionRationale = d.status.code ++ " by " ++ d.decidedBy ++ d.shownNotes := by
  rw [decisionRationale, latestDecision?, h, Decision.shownNotes]
  dsimp only
  cases d.notes with
  | none => exact String.append_empty.symm
  | some notes => exact String.append_assoc

private theorem decisionRationale_of_evaluated {outcome : EvaluationOutcome Float}
    (h : f.decisions = [])
    (he : f.evaluation = some outcome) : f.decisionRationale = outcome.summary := by
  rw [decisionRationale, latestDecision?, h, he]
  rfl

end UnderwritingFile

/-- What the view of a file says of its status, after changes. -/
inductive RationaleAccount (f : UnderwritingFile) : List Change → Prop
  /-- The status was decided: its code and the underwriter come first. -/
  | decided (before : List Change) (d : Decision) : f.status = d.status →
    f.statusView.decisionRationale = f.status.code ++ " by " ++ d.decidedBy ++ d.shownNotes →
    RationaleAccount f (before ++ [.decision d])
  /-- The status was evaluated, and nothing was decided before: the code of the status comes
  last. -/
  | evaluated (outcome : EvaluationOutcome Float) :
    f.status = outcome.recommendedStatus → f.evaluation = some outcome →
    f.statusView.decisionRationale = outcome.summary →
    outcome.summary = outcome.risk ++ "recommended " ++ f.status.code →
    RationaleAccount f [.evaluation outcome]
  /-- The status was evaluated after a decision: the decision is shown, which was for another
  status. -/
  | overtaken (before : List Change) (d : Decision) (outcome : EvaluationOutcome Float) :
    f.status = outcome.recommendedStatus → f.evaluation = some outcome → d.status ≠ f.status →
    f.statusView.decisionRationale = d.status.code ++ " by " ++ d.decidedBy ++ d.shownNotes →
    RationaleAccount f (before ++ [.decision d, .evaluation outcome])

namespace FileHistory

variable {config : EvaluationConfig Float} {a : Assessment Float} {before : List Change}
  {f : UnderwritingFile} {d : Decision} {outcome : EvaluationOutcome Float}

private theorem rationale_of_decision (h : FileHistory config a (before ++ [.decision d]) f) :
    RationaleAccount f (before ++ [.decision d]) := by
  have hlast : f.decisions.getLast? = some d := by
    rw [h.decisions_eq, List.filterMap_append]
    exact List.getLast?_concat
  have hstatus : f.status = d.status := h.status_concat
  refine .decided before d hstatus ?_
  rw [hstatus]
  exact UnderwritingFile.decisionRationale_of_decided hlast

/-- A file that was evaluated last has that evaluation. -/
theorem evaluation_concat (h : FileHistory config a (before ++ [.evaluation outcome]) f) :
    f.evaluation = some outcome := by
  rw [h.evaluation_eq, List.filterMap_append]
  exact List.getLast?_concat

private theorem rationale_of_evaluation (h : FileHistory config a [.evaluation outcome] f) :
    RationaleAccount f [.evaluation outcome] := by
  rw [← List.nil_append [Change.evaluation outcome]] at h
  have hstatus : f.status = outcome.recommendedStatus := h.status_concat
  have hnone : f.decisions = [] := h.decisions_eq
  refine .evaluated outcome hstatus h.evaluation_concat
    (UnderwritingFile.decisionRationale_of_evaluated hnone h.evaluation_concat) ?_
  rw [hstatus]
  exact outcome.summary_eq

/-- The decision is for another status, as the evaluation moved the file. -/
private theorem rationale_of_overtaken
    (h : FileHistory config a (before ++ [.decision d, .evaluation outcome]) f) :
    RationaleAccount f (before ++ [.decision d, .evaluation outcome]) := by
  rw [List.append_cons] at h
  obtain ⟨g, hg, hadmits⟩ := h.split rfl
  have hstatus : f.status = outcome.recommendedStatus := h.status_concat
  have hlast : f.decisions.getLast? = some d := by
    rw [h.decisions_eq, List.filterMap_append, List.filterMap_append]
    exact (congrArg _ (List.append_nil _)).trans List.getLast?_concat
  refine .overtaken before d outcome hstatus h.evaluation_concat ?_
    (UnderwritingFile.decisionRationale_of_decided hlast)
  rw [hstatus]
  exact (hg.status_ne hadmits).symm

/-- The view of a file that was changed. -/
theorem rationaleAccount {changes : List Change} (h : FileHistory config a changes f)
    (hchanged : changes ≠ []) : RationaleAccount f changes := by
  rcases List.eq_nil_or_concat changes with rfl | ⟨before, last, rfl⟩
  · exact absurd rfl hchanged
  · rw [List.concat_eq_append] at h ⊢
    cases last with
    | decision d => exact h.rationale_of_decision
    | evaluation outcome =>
      rcases List.eq_nil_or_concat before with rfl | ⟨before', c, rfl⟩
      · exact h.rationale_of_evaluation
      · rw [List.concat_eq_append, List.append_assoc] at h ⊢
        obtain ⟨d, rfl⟩ := h.decision_before rfl
        exact h.rationale_of_overtaken

end FileHistory

namespace Session

variable {config : EvaluationConfig Float}

/-- **What a view says.** Every file that was changed is in one of the three cases, by what changed
it last. -/
theorem rationale_account {visits : List Visit} {k : PolicyId} {f : UnderwritingFile}
    (hf : (run config visits).desk.files.find? k = some f) (hrevision : 0 < f.revision) :
    RationaleAccount f (changes k (run config visits).past) := by
  have h := history hf
  refine h.rationaleAccount fun hnone => ?_
  rw [h.revision_eq, hnone] at hrevision
  exact absurd hrevision (by decide)

/-- A file is evaluated and then approved, and its view says so. -/
theorem rationale_account_of_approval :
    let visits : List Visit :=
      [⟨.submit ⟨"pol-1", 70, none, [⟨"CLAIMS_HISTORY", 70, 1, none⟩], "ana", none⟩ ⟨0, 0⟩,
          .ok ()⟩,
       ⟨.evaluate "pol-1", .ok ()⟩,
       ⟨.decide "pol-1" ⟨"APPROVED", some "clean record", none⟩ "ana" ⟨60, 0⟩, .ok ()⟩]
    ∃ f, (run .standard visits).desk.files.find? "pol-1" = some f ∧ 0 < f.revision ∧
      f.statusView.decisionRationale = "APPROVED by ana: clean record" ∧
      RationaleAccount f (changes "pol-1" (run .standard visits).past) := by
  intro visits
  have hfound : ((run .standard visits).desk.files.find? "pol-1").map
      (fun f => (f.revision, f.statusView.decisionRationale)) =
      some (2, "APPROVED by ana: clean record") := by
    decide +kernel
  obtain ⟨f, hf, hview⟩ := Option.map_eq_some_iff.mp hfound
  obtain ⟨hrevision, hrationale⟩ := Prod.mk.inj hview
  have hchanged : 0 < f.revision := by rw [hrevision]; decide
  exact ⟨f, hf, hchanged, hrationale, rationale_account hf hchanged⟩

/-- A file is taken into review and then evaluated: its view shows the status of the evaluation and
the decision before it. -/
theorem rationale_of_review :
    let visits : List Visit :=
      [⟨.submit ⟨"pol-1", 70, none, [⟨"CLAIMS_HISTORY", 70, 1, none⟩], "ana", none⟩ ⟨0, 0⟩,
          .ok ()⟩,
       ⟨.decide "pol-1" ⟨"IN_REVIEW", none, none⟩ "ana" ⟨60, 0⟩, .ok ()⟩,
       ⟨.evaluate "pol-1", .ok ()⟩]
    ∃ f outcome, (run .standard visits).desk.files.find? "pol-1" = some f ∧ 0 < f.revision ∧
      (changes "pol-1" (run .standard visits).past).getLast? = some (.evaluation outcome) ∧
      f.evaluation = some outcome ∧ f.statusView.status = .manualReview ∧
      outcome.summary = "medium risk (70.00), recommended MANUAL_REVIEW" ∧
      f.statusView.decisionRationale = "IN_REVIEW by ana" := by
  intro visits
  have hfound : ((run .standard visits).desk.files.find? "pol-1").map
      (fun f => (f.revision, f.status, f.evaluation.map EvaluationOutcome.summary,
        f.statusView.decisionRationale)) =
      some (2, .manualReview, some "medium risk (70.00), recommended MANUAL_REVIEW",
        "IN_REVIEW by ana") := by
    decide +kernel
  have hlast : ((changes "pol-1" (run .standard visits).past).getLast?.bind
      Change.outcome?).isSome = true := by
    decide +kernel
  obtain ⟨f, hf, hview⟩ := Option.map_eq_some_iff.mp hfound
  simp only [Prod.mk.injEq] at hview
  obtain ⟨hrevision, hstatus, hsummary, hrationale⟩ := hview
  obtain ⟨outcome, hbind⟩ := Option.isSome_iff_exists.mp hlast
  obtain ⟨c, hc, houtcome⟩ := Option.bind_eq_some_iff.mp hbind
  obtain rfl : c = .evaluation outcome := Change.outcome?_eq_some.mp houtcome
  obtain ⟨before, hchanges⟩ := List.getLast?_eq_some_iff.mp hc
  have hevaluation : f.evaluation = some outcome :=
    FileHistory.evaluation_concat (hchanges ▸ history hf)
  rw [hevaluation] at hsummary
  exact ⟨f, outcome, hf, by rw [hrevision]; decide, hc, hevaluation, hstatus,
    Option.some.inj hsummary, hrationale⟩

end Session

end PolicyDesk
