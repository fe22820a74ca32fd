import PolicyDesk.Http.Api
import PolicyDesk.Proofs.Assessment.Admissible
import PolicyDesk.Proofs.Desk.Offers
import PolicyDesk.Proofs.Underwriting.Decisions

/-!
# The answers to submissions and decisions

A request can be wrong in several ways at once. The answer then tells of the first that is met, in
an order that is the same on every desk: the body, the rules, the file, its status, the carrier.

- **Answers** (`SubmitAnswer`, `DecisionAnswer`): the answers there are and when each of them is
  given. What the rules say is what the dry run of the same body lists (`lists_iff`).
- **Sound** (`SubmitAnswer.sound`, `DecisionAnswer.sound`): an answer that can be given is given.
- **Total** (`SubmitAnswer.total`, `DecisionAnswer.total`): there is one for every request; so there
  is exactly one (`Desk.Reached.answers`).
-/

namespace PolicyDesk

open WorkflowStatus (allowedNext)
open Http (Body BodyError Response)
open Http.Operations (answer showFile)

/-- What an operation answers on a desk. The desk that it leaves is not looked at. -/
def Desk.respond (desk : Desk) (carrier : CarrierAnswer) (operation : DeskM Response) : Response :=
  ((operation.run carrier).run desk).1

/-- The answer of a dry run that lists these violations. -/
def Http.Response.Lists (r : Response) (violations : List Violation) : Prop :=
  r = .json 200 (Report.toJson ⟨violations⟩)

namespace DecisionRequest

/-- The rule on a decision that a proposal does not have. A dry run of the rules does not know who
asks. -/
def unsigned (request : DecisionRequest) : List Violation :=
  if Text.isBlank request.decidedBy then
    [⟨"decided_by", "decision must name the underwriter"⟩] else []

/-- The visit of the request to the file of a policy. -/
def visit (request : DecisionRequest) (policyId : PolicyId) (carrier : CarrierAnswer)
    (now : Instant) : Visit :=
  ⟨.decide policyId request.proposal request.decidedBy now, carrier⟩

/-- The dry run lists nothing, and an underwriter is named. -/
structure Passes (request : DecisionRequest) : Prop where
  proposal : (Http.Rules.decisionCheck (.ok request.proposal)).Lists []
  signed : Text.isBlank request.decidedBy = false

end DecisionRequest

/-- The answers to a submission. The carrier is not asked, and the clock does not show. -/
inductive SubmitAnswer (desk : Desk) : Body (AssessmentInput Float) → Response → Prop
  | malformed (e : BodyError) :
    SubmitAnswer desk (.error e)
      (.json 400 (.record [("error", .str e.text), ("kind", .str "malformed_input")]))
  | broken (input : AssessmentInput Float) (violations : List Violation) :
    (Http.Rules.assessmentCheck (.ok input)).Lists violations → violations ≠ [] →
    SubmitAnswer desk (.ok input)
      (.json 422 (.record
        [("error", .str "rule violations"), ("violations", Report.violationsJson ⟨violations⟩)]))
  | taken (input : AssessmentInput Float) (f : UnderwritingFile) :
    (Http.Rules.assessmentCheck (.ok input)).Lists [] →
    desk.files.find? (Text.trim input.policyId) = some f →
    SubmitAnswer desk (.ok input)
      (.json 409 (.record [("error", .str "underwriting file already exists for this policy")]))
  | opened (input : AssessmentInput Float) :
    (Http.Rules.assessmentCheck (.ok input)).Lists [] →
    desk.files.find? (Text.trim input.policyId) = none →
    SubmitAnswer desk (.ok input)
      (.json 202 (StatusView.toJson
        { policyId := Text.trim input.policyId
          status := .pendingReview
          severity := Severity.band input.riskScore
          riskScore := input.riskScore
          allowedNext := allowedCodes UnderwritingStatus.pendingReview
          decisionRationale := "pending evaluation"
          conditions := [] }))

/-- The answers to a decision on the file of a policy. Each of the seven says what the ones before
it did not find. -/
inductive DecisionAnswer (desk : Desk) (carrier : CarrierAnswer) (policyId : PolicyId)
    (now : Instant) : Body DecisionRequest → Response → Prop
  | malformed (e : BodyError) :
    DecisionAnswer desk carrier policyId now (.error e)
      (.json 400 (.record [("error", .str e.text), ("kind", .str "malformed_input")]))
  /-- Whether there is a file or not. -/
  | broken (request : DecisionRequest) (violations : List Violation) :
    (Http.Rules.decisionCheck (.ok request.proposal)).Lists violations →
    violations ++ request.unsigned ≠ [] →
    DecisionAnswer desk carrier policyId now (.ok request)
      (.json 422 (.record [("error", .str "rule violations"),
        ("violations", Report.violationsJson ⟨violations ++ request.unsigned⟩)]))
  | missing (request : DecisionRequest) : request.Passes → desk.files.find? policyId = none →
    DecisionAnswer desk carrier policyId now (.ok request)
      (.json 404 (.record [("error", .str "record not found")]))
  | final (request : DecisionRequest) (f : UnderwritingFile) : request.Passes →
    desk.files.find? policyId = some f → f.status.isTerminal = true →
    DecisionAnswer desk carrier policyId now (.ok request)
      (.json 409 (.record [("error",
        .str ("underwriting for " ++ policyId ++ " is final (" ++ f.status.code ++ ")"))]))
  /-- The gate does not have the move. -/
  | refused (request : DecisionRequest) (f : UnderwritingFile) (status : UnderwritingStatus) :
    request.Passes → desk.files.find? policyId = some f → f.status.isTerminal = false →
    parseStatus request.proposal.decision = .ok status → status ∉ allowedNext f.status →
    DecisionAnswer desk carrier policyId now (.ok request)
      (.json 409 (.record
        [("error", .str (TransitionError.message
          ⟨.underwriting, f.status.code, status.code, allowedCodes f.status⟩)),
         ("allowed", Json.ofStrings (allowedCodes f.status))]))
  | unreferred (request : DecisionRequest) (f : UnderwritingFile) (e : CarrierError) :
    request.Passes → desk.files.find? policyId = some f → f.status.isTerminal = false →
    parseStatus request.proposal.decision = .ok UnderwritingStatus.referredToCarrier →
    .referredToCarrier ∈ allowedNext f.status → carrier = .error e →
    DecisionAnswer desk carrier policyId now (.ok request)
      (.json 502 (.record [("error", .str e.message)]))
  /-- The answer shows the file with the decision on it. -/
  | decided (request : DecisionRequest) (f : UnderwritingFile) (d : Decision) :
    request.Passes → desk.files.find? policyId = some f → f.status.isTerminal = false →
    Decision.ofProposal request.proposal request.decidedBy now = .ok d →
    d.status ∈ allowedNext f.status → (d.status = .referredToCarrier → carrier = .ok ()) →
    DecisionAnswer desk carrier policyId now (.ok request)
      (.json 200 (f.withDecision d).statusView.toJson)

/-! ## Dry runs -/

private theorem Violation.toJson_injective : Function.Injective Violation.toJson := by
  intro v w h
  cases v
  cases w
  simpa [Violation.toJson, Json.record] using h

/-- The verdict is derived from the list, so only the list counts. -/
private theorem Report.violations_of_toJson {r r' : Report} (h : r.toJson = r'.toJson) :
    r.violations = r'.violations := by
  have hboth : r.valid = r'.valid ∧ r.violationsJson = r'.violationsJson := by
    simpa [Report.toJson, Json.record] using h
  exact Violation.toJson_injective.list_map (Json.arr.inj hboth.2)

/-- A report on the wire lists its violations and no others. -/
theorem Http.Response.lists_iff {report : Report} {violations : List Violation} :
    (Response.json 200 report.toJson).Lists violations ↔ violations = report.violations := by
  constructor
  · intro h
    have hjson : report.toJson = Report.toJson ⟨violations⟩ := by
      simpa [Response.Lists, Response.json] using h
    exact (Report.violations_of_toJson hjson).symm
  · rintro rfl
    rfl

theorem lists_assessmentCheck {input : AssessmentInput Float} {violations : List Violation} :
    (Http.Rules.assessmentCheck (.ok input)).Lists violations ↔
      violations = input.validate.violations :=
  Response.lists_iff

theorem lists_decisionCheck {p : ProposedDecision} {violations : List Violation} :
    (Http.Rules.decisionCheck (.ok p)).Lists violations ↔ violations = p.validate.violations :=
  Response.lists_iff

/-! ## Visits -/

/-- What an operation on a file answers. -/
def fileResponse (status : Nat) : Except UnderwritingError UnderwritingFile → Response
  | .ok f => showFile status f
  | .error e => e.response

variable {config : EvaluationConfig Float} {desk : Desk} {carrier : CarrierAnswer} {now : Instant}

/-- A handler answers with the reply to the call of its operation. What it does to the desk it does
through the same program. -/
theorem respond_answer {v : Visit} {status : Nat}
    {operation : ExceptT UnderwritingError DeskM UnderwritingFile}
    {result : Except UnderwritingError UnderwritingFile}
    (hprogram : v.call.program config = Reply.file <$> operation.run)
    (h : (v.serve config desk).1 = .file result) :
    desk.respond v.carrier (answer UnderwritingError.response (showFile status) operation) =
      fileResponse status result := by
  have hrun : Reply.file ((operation.run.run v.carrier).run desk).1 = .file result := by
    rw [← h, Visit.serve, hprogram]
    rfl
  unfold Desk.respond answer
  -- The handler runs the operation and then only translates the result.
  rw [ReaderT.run_bind, StateT.run_bind, ← Reply.file.inj hrun]
  generalize (operation.run.run v.carrier).run desk = ran
  obtain ⟨result, desk'⟩ := ran
  cases result <;> rfl

private theorem respond_submit {input : AssessmentInput Float}
    {result : Except UnderwritingError UnderwritingFile}
    (h : (Visit.serve config ⟨.submit input now, carrier⟩ desk).1 = .file result) :
    desk.respond carrier (Http.Operations.submit (.ok input) now) = fileResponse 202 result :=
  respond_answer (v := ⟨.submit input now, carrier⟩) rfl h

private theorem respond_decide {policyId : PolicyId} {request : DecisionRequest}
    {result : Except UnderwritingError UnderwritingFile}
    (h : ((request.visit policyId carrier now).serve config desk).1 = .file result) :
    desk.respond carrier (Http.Operations.decide policyId (.ok request) now) =
      fileResponse 200 result :=
  respond_answer (v := request.visit policyId carrier now) rfl h

/-! ## Submissions -/

private theorem serve_submit_refused {input : AssessmentInput Float} {report : Report}
    (h : input.build now = .error report) :
    Visit.serve config ⟨.submit input now, carrier⟩ desk =
      (.file (.error (.violations report)), desk) := by
  rw [Visit.serve_eq_play, Call.script, h]
  rfl

private theorem serve_submit_taken {input : AssessmentInput Float} {a : Assessment Float}
    {f : UnderwritingFile} (h : input.build now = .ok a)
    (htaken : desk.files.find? a.policyId = some f) :
    Visit.serve config ⟨.submit input now, carrier⟩ desk =
      (.file (.error (.store .conflict)), desk) := by
  have hs : desk.stored? (Stored.file (.ofAssessment a)).id = some (.file f) :=
    Desk.stored?_file_eq_some.mpr htaken
  have hinsert : desk.insert (.file (.ofAssessment a)) = .error .conflict :=
    Desk.insert_of_taken (Option.isSome_of_mem hs)
  rw [Visit.serve_eq_play, Call.script, h, Call.opening, Call.play_insert_error hinsert]
  rfl

private theorem serve_submit_opened {input : AssessmentInput Float} {a : Assessment Float}
    (h : input.build now = .ok a) (hfree : desk.files.find? a.policyId = none) :
    (Visit.serve config ⟨.submit input now, carrier⟩ desk).1 =
      .file (.ok (.ofAssessment a)) := by
  have hs : desk.stored? (Stored.file (.ofAssessment a)).id = none :=
    congrArg (Option.map Stored.file) hfree
  obtain ⟨desk', hinsert⟩ := Desk.insert_of_free hs
  have hcall : (Call.submit input now).assessment? config = some a := toOption_eq_some.mpr h
  exact congrArg Prod.fst (serve_openedFile (v := ⟨.submit input now, carrier⟩) hcall hinsert)

/-- The view of a new file, in terms of what was submitted. -/
private theorem statusView_ofAssessment {input : AssessmentInput Float} {a : Assessment Float}
    (h : input.Becomes now a) :
    (UnderwritingFile.ofAssessment a).statusView =
      { policyId := Text.trim input.policyId
        status := .pendingReview
        severity := Severity.band input.riskScore
        riskScore := input.riskScore
        allowedNext := allowedCodes UnderwritingStatus.pendingReview
        decisionRationale := "pending evaluation"
        conditions := [] } := by
  rw [← h.policyId, ← h.severity, ← h.riskScore]
  rfl

private theorem exists_build_of_lists {input : AssessmentInput Float}
    (h : (Http.Rules.assessmentCheck (.ok input)).Lists []) (now : Instant) :
    ∃ a, input.build now = .ok a := by
  have hclean := lists_assessmentCheck.mp h
  obtain ⟨-, ha⟩ | ⟨hne, -⟩ := input.build_cases now
  · exact ha
  · exact absurd hclean.symm hne

namespace SubmitAnswer

variable {body : Body (AssessmentInput Float)} {response : Response}

/-- An answer that can be given is given, whatever the clock and the carrier. -/
theorem sound (h : SubmitAnswer desk body response) (config : EvaluationConfig Float)
    (now : Instant) (carrier : CarrierAnswer) :
    desk.respond carrier (Http.Operations.submit body now) = response := by
  cases h with
  | malformed e => rfl
  | broken input violations hlists hne =>
    have hviolations := lists_assessmentCheck.mp hlists
    rw [hviolations] at hne ⊢
    obtain ⟨hclean, -⟩ | ⟨-, hbuild⟩ := input.build_cases now
    · exact absurd hclean hne
    · -- The report of the dry run is the one that the submission is refused with.
      have hserve : Visit.serve config ⟨.submit input now, carrier⟩ desk =
          (.file (.error (.violations input.validate)), desk) :=
        serve_submit_refused hbuild
      rw [respond_submit (congrArg Prod.fst hserve)]
      rfl
  | taken input f hlists htaken =>
    obtain ⟨a, hbuild⟩ := exists_build_of_lists hlists now
    rw [← (AssessmentInput.becomes_of_build hbuild).policyId] at htaken
    have hserve : Visit.serve config ⟨.submit input now, carrier⟩ desk =
        (.file (.error (.store .conflict)), desk) :=
      serve_submit_taken hbuild htaken
    rw [respond_submit (congrArg Prod.fst hserve)]
    rfl
  | opened input hlists hfree =>
    obtain ⟨a, hbuild⟩ := exists_build_of_lists hlists now
    have hbecomes := AssessmentInput.becomes_of_build hbuild
    rw [← hbecomes.policyId] at hfree
    have hreply : (Visit.serve config ⟨.submit input now, carrier⟩ desk).1 =
        .file (.ok (.ofAssessment a)) :=
      serve_submit_opened hbuild hfree
    rw [respond_submit hreply, ← statusView_ofAssessment hbecomes]
    rfl

/-- Every submission has an answer. -/
theorem total (desk : Desk) (body : Body (AssessmentInput Float)) :
    ∃ response, SubmitAnswer desk body response := by
  cases body with
  | error e => exact ⟨_, .malformed e⟩
  | ok input =>
    have hlists := lists_assessmentCheck.mpr (Eq.refl input.validate.violations)
    by_cases hclean : input.validate.violations = []
    · rw [hclean] at hlists
      cases hfile : desk.files.find? (Text.trim input.policyId) with
      | none => exact ⟨_, .opened input hlists hfile⟩
      | some f => exact ⟨_, .taken input f hlists hfile⟩
    · exact ⟨_, .broken input _ hlists hclean⟩

end SubmitAnswer

/-! ## Decisions -/

section

variable {policyId : PolicyId} {request : DecisionRequest} {d : Decision}

/-- A request passes exactly when it makes a decision. -/
theorem DecisionRequest.passes_iff_made (now : Instant) : request.Passes ↔
    ∃ d, Decision.ofProposal request.proposal request.decidedBy now = .ok d := by
  have hvalid : request.proposal.validate.valid = true ↔
      (Http.Rules.decisionCheck (.ok request.proposal)).Lists [] := by
    rw [lists_decisionCheck]
    exact List.isEmpty_iff.trans eq_comm
  rw [Decision.exists_ofProposal_iff, hvalid]
  exact ⟨fun h => ⟨h.proposal, h.signed⟩, fun h => ⟨h.1, h.2⟩⟩

/-- The decision has the status that is proposed. -/
theorem DecisionRequest.Passes.exists_decision (h : request.Passes) (now : Instant) :
    ∃ d, Decision.ofProposal request.proposal request.decidedBy now = .ok d ∧
      parseStatus request.proposal.decision = .ok d.status := by
  obtain ⟨d, hd⟩ := (DecisionRequest.passes_iff_made now).mp h
  obtain ⟨status, haccepted, -, rfl⟩ := Decision.ofProposal_eq_ok.mp hd
  exact ⟨_, hd, haccepted.named⟩

theorem DecisionRequest.passes_iff : request.Passes ↔
    request.proposal.validate.violations ++ request.unsigned = [] := by
  have hsigned : request.unsigned = [] ↔ Text.isBlank request.decidedBy = false := by
    simp [DecisionRequest.unsigned]
  rw [List.append_eq_nil_iff, hsigned]
  constructor
  · exact fun h => ⟨(lists_decisionCheck.mp h.proposal).symm, h.signed⟩
  · exact fun h => ⟨lists_decisionCheck.mpr h.1.symm, h.2⟩

/-- A request that does not pass is refused with what it breaks, before the file is looked for. -/
private theorem serve_decide_broken
    (h : request.proposal.validate.violations ++ request.unsigned ≠ []) :
    (request.visit policyId carrier now).serve config desk =
      (.file (.error (.violations
        ⟨request.proposal.validate.violations ++ request.unsigned⟩)), desk) := by
  cases hmade : Decision.ofProposal request.proposal request.decidedBy now with
  | ok d =>
    have hpasses : request.Passes := (DecisionRequest.passes_iff_made now).mpr ⟨d, hmade⟩
    exact absurd (DecisionRequest.passes_iff.mp hpasses) h
  | error report =>
    have hreport : report = ⟨request.proposal.validate.violations ++ request.unsigned⟩ := by
      rw [DecisionRequest.unsigned, ← Decision.violations_of_refused hmade]
    rw [DecisionRequest.visit, Visit.serve_eq_play, Call.script, hmade, hreport]
    rfl

variable (hd : Decision.ofProposal request.proposal request.decidedBy now = .ok d)
include hd

private theorem serve_decide_missing (hnone : desk.files.find? policyId = none) :
    (request.visit policyId carrier now).serve config desk =
      (.file (.error (.store .notFound)), desk) := by
  have hs : desk.stored? (.file policyId) = none := congrArg (Option.map Stored.file) hnone
  rw [DecisionRequest.visit, Visit.serve_eq_play, Call.script_decide hd, Call.play_reading, hs]
  rfl

/-- A final file takes no decision, whichever it is. -/
private theorem serve_decide_final {f : UnderwritingFile} (hk : desk.Keyed)
    (hf : desk.files.find? policyId = some f) (hterm : f.status.isTerminal = true) :
    (request.visit policyId carrier now).serve config desk =
      (.file (.error (.finalized policyId f.status)), desk) := by
  -- The error names the policy of the file, which is the one in the path.
  obtain rfl : f.policyId = policyId :=
    RecordId.file.inj (hk _ _ (Desk.stored?_file_eq_some.mpr hf))
  exact serve_decide_error hd hf (UnderwritingFile.decided_of_terminal hterm f.policyId d)

/-- An open file refuses a decision that it does not offer, and names those that it offers. -/
private theorem serve_decide_off_graph {f : UnderwritingFile}
    (hf : desk.files.find? policyId = some f) (hopen : f.status.isTerminal = false)
    (hm : d.status ∉ allowedNext f.status) :
    (request.visit policyId carrier now).serve config desk =
      (.file (.error (.transition
        ⟨.underwriting, f.status.code, d.status.code, allowedCodes f.status⟩)), desk) := by
  -- An open file offers moves, so the refusal is that of the gate and not that of a final file.
  have hoffered : f.statusView.allowedNext ≠ [] := by
    rw [Ne, UnderwritingFile.offered_eq_nil, hopen]
    decide
  have hrefused := UnderwritingFile.decided_of_not_offered (k := policyId) hm
  rw [if_neg hoffered] at hrefused
  exact serve_decide_error hd hf hrefused

/-- A referral that the carrier does not take ends the call. -/
private theorem serve_decide_unreferred {f : UnderwritingFile} {e : CarrierError} (hk : desk.Keyed)
    (hf : desk.files.find? policyId = some f) (hopen : f.status.isTerminal = false)
    (hm : d.status ∈ allowedNext f.status) (hreferred : d.status = .referredToCarrier)
    (he : carrier = .error e) :
    (request.visit policyId carrier now).serve config desk =
      (.file (.error (.carrier e)), desk) := by
  have hs : desk.stored? (.file policyId) = some (.file f) := Desk.stored?_file_eq_some.mpr hf
  obtain rfl : f.policyId = policyId := RecordId.file.inj (hk _ _ hs)
  have ha : Amends config (.decide f.policyId request.proposal request.decidedBy now)
      (.decision f f.policyId d) :=
    .decision f.policyId request.proposal request.decidedBy now f d hd hopen hm
  obtain ⟨r, hr⟩ : ∃ r, (Amendment.decision f f.policyId d).referral = some r :=
    ⟨_, UnderwritingFile.decisionReferral_eq_some.mpr ⟨hreferred, rfl⟩⟩
  exact serve_refused (v := ⟨_, carrier⟩) ha rfl hs hr he

end

namespace DecisionAnswer

variable {policyId : PolicyId} {body : Body DecisionRequest} {response : Response}

/-- An answer that can be given is given. One case for each answer: what was found on the way makes
the call end with it. -/
theorem sound (h : DecisionAnswer desk carrier policyId now body response) (hk : desk.Keyed)
    (config : EvaluationConfig Float) :
    desk.respond carrier (Http.Operations.decide policyId body now) = response := by
  cases h with
  | malformed e => rfl
  | broken request violations hlists hne =>
    have hviolations := lists_decisionCheck.mp hlists
    rw [hviolations] at hne ⊢
    -- The rules are asked before the desk, so it does not matter what is stored.
    have hserve : (request.visit policyId carrier now).serve config desk =
        (.file (.error (.violations
          ⟨request.proposal.validate.violations ++ request.unsigned⟩)), desk) :=
      serve_decide_broken hne
    rw [respond_decide (congrArg Prod.fst hserve)]
    rfl
  | missing request hpasses hnone =>
    obtain ⟨d, hd, -⟩ := hpasses.exists_decision now
    have hserve : (request.visit policyId carrier now).serve config desk =
        (.file (.error (.store .notFound)), desk) :=
      serve_decide_missing hd hnone
    rw [respond_decide (congrArg Prod.fst hserve)]
    rfl
  | final request f hpasses hf hterm =>
    obtain ⟨d, hd, -⟩ := hpasses.exists_decision now
    have hserve : (request.visit policyId carrier now).serve config desk =
        (.file (.error (.finalized policyId f.status)), desk) :=
      serve_decide_final hd hk hf hterm
    rw [respond_decide (congrArg Prod.fst hserve)]
    rfl
  | refused request f status hpasses hf hopen hstatus hm =>
    obtain ⟨d, hd, hnamed⟩ := hpasses.exists_decision now
    obtain rfl : status = d.status := Except.ok.inj (hstatus.symm.trans hnamed)
    have hserve : (request.visit policyId carrier now).serve config desk =
        (.file (.error (.transition
          ⟨.underwriting, f.status.code, d.status.code, allowedCodes f.status⟩)), desk) :=
      serve_decide_off_graph hd hf hopen hm
    rw [respond_decide (congrArg Prod.fst hserve)]
    rfl
  | unreferred request f e hpasses hf hopen hstatus hm he =>
    obtain ⟨d, hd, hnamed⟩ := hpasses.exists_decision now
    -- The carrier is asked after the gate, so the move is there.
    have hreferred : d.status = .referredToCarrier := Except.ok.inj (hnamed.symm.trans hstatus)
    have hserve : (request.visit policyId carrier now).serve config desk =
        (.file (.error (.carrier e)), desk) :=
      serve_decide_unreferred hd hk hf hopen (hreferred ▸ hm) hreferred he
    rw [respond_decide (congrArg Prod.fst hserve)]
    rfl
  | decided request f d hpasses hf hopen hd hm hr =>
    have hreply : ((request.visit policyId carrier now).serve config desk).1 =
        .file (.ok (f.withDecision d)) :=
      (serve_decided hk hd hf hopen hm hr).1
    rw [respond_decide hreply]
    rfl

/-- Every decision has an answer. -/
theorem total (desk : Desk) (carrier : CarrierAnswer) (policyId : PolicyId) (now : Instant)
    (body : Body DecisionRequest) :
    ∃ response, DecisionAnswer desk carrier policyId now body response := by
  cases body with
  | error e => exact ⟨_, .malformed e⟩
  | ok request =>
    -- The cases are tried in the order in which the answers exclude each other.
    by_cases hpasses : request.Passes
    · obtain ⟨d, hd, hnamed⟩ := hpasses.exists_decision now
      cases hfile : desk.files.find? policyId with
      | none => exact ⟨_, .missing request hpasses hfile⟩
      | some f =>
        cases hterm : f.status.isTerminal with
        | true => exact ⟨_, .final request f hpasses hfile hterm⟩
        | false =>
          by_cases hm : d.status ∈ allowedNext f.status
          · by_cases hr : d.status = .referredToCarrier → carrier = .ok ()
            · exact ⟨_, .decided request f d hpasses hfile hterm hd hm hr⟩
            · obtain ⟨hreferred, hfails⟩ := Classical.not_imp.mp hr
              cases carrier with
              | ok u => exact absurd rfl hfails
              | error e =>
                rw [hreferred] at hnamed hm
                exact ⟨_, .unreferred request f e hpasses hfile hterm hnamed hm rfl⟩
          · exact ⟨_, .refused request f d.status hpasses hfile hterm hnamed hm⟩
    · have hlists := lists_decisionCheck.mpr (Eq.refl request.proposal.validate.violations)
      exact ⟨_, .broken request _ hlists (mt DecisionRequest.passes_iff.mpr hpasses)⟩

end DecisionAnswer

/-- **Answers.** On every desk that is reached, a submission and a decision each have one answer,
and it is the one that is given. Soundness gives one direction; the other needs that there is an
answer at all. -/
theorem Desk.Reached.answers (h : desk.Reached config) :
    (∀ body now carrier response, SubmitAnswer desk body response ↔
      desk.respond carrier (Http.Operations.submit body now) = response) ∧
    ∀ policyId body now carrier response,
      DecisionAnswer desk carrier policyId now body response ↔
        desk.respond carrier (Http.Operations.decide policyId body now) = response := by
  constructor
  · intro body now carrier response
    obtain ⟨given, hgiven⟩ := SubmitAnswer.total desk body
    have hsame := hgiven.sound config now carrier
    constructor
    · exact fun hanswer => hanswer.sound config now carrier
    · intro hresponse
      rwa [← hresponse, hsame]
  · intro policyId body now carrier response
    obtain ⟨given, hgiven⟩ := DecisionAnswer.total desk carrier policyId now body
    have hsame := hgiven.sound h.keyed config
    constructor
    · exact fun hanswer => hanswer.sound h.keyed config
    · intro hresponse
      rwa [← hresponse, hsame]

/-- A decision that breaks two rules on a file that is not there, a good one on a final file, one
for a carrier that fails, and a second submission for a policy. -/
theorem Desk.Reached.answers_of_three_files :
    let submission (policyId : PolicyId) : AssessmentInput Float :=
      ⟨policyId, 85, none, [⟨"CLAIMS_HISTORY", 85, 1, none⟩], "ana", none⟩
    let visits : List Visit :=
      [⟨.submit (submission "pol-1") ⟨0, 0⟩, .ok ()⟩,
       ⟨.decide "pol-1" ⟨"declined", some "too many claims", none⟩ "ana" ⟨60, 0⟩, .ok ()⟩,
       ⟨.submit (submission "pol-2") ⟨120, 0⟩, .ok ()⟩]
    let desk := (Session.run .standard visits).desk
    desk.respond (.ok ()) (Http.Operations.decide "pol-3" (.ok ⟨⟨"approved", none, some [" "]⟩, ""⟩)
      ⟨180, 0⟩) = .json 422 (.record [("error", .str "rule violations"),
        ("violations", Report.violationsJson
          ⟨[⟨"conditions[0]", "condition must not be blank"⟩,
            ⟨"decided_by", "decision must name the underwriter"⟩]⟩)]) ∧
    desk.respond (.ok ()) (Http.Operations.decide "pol-1" (.ok ⟨⟨"approved", none, none⟩, "ana"⟩)
      ⟨180, 0⟩) = .json 409 (.record
        [("error", .str "underwriting for pol-1 is final (DECLINED)")]) ∧
    desk.respond (.error (.transport "timeout")) (Http.Operations.decide "pol-2"
      (.ok ⟨⟨"referred_to_carrier", none, none⟩, "ana"⟩) ⟨180, 0⟩) = .json 502 (.record
        [("error", .str "carrier integration unavailable: timeout")]) ∧
    desk.respond (.ok ()) (Http.Operations.submit (.ok (submission " pol-2 ")) ⟨180, 0⟩) =
      .json 409 (.record
        [("error", .str "underwriting file already exists for this policy")]) := by
  intro submission visits desk
  have hreached : desk.Reached .standard := .served visits
  obtain ⟨hsubmit, hdecide⟩ := hreached.answers
  have hfinal : (desk.files.find? "pol-1").map (·.status) = some .declined := by
    decide +kernel
  have hpending : (desk.files.find? "pol-2").map (·.status) = some .pendingReview := by
    decide +kernel
  obtain ⟨f, hf, hdeclined⟩ := Option.map_eq_some_iff.mp hfinal
  obtain ⟨g, hg, hreview⟩ := Option.map_eq_some_iff.mp hpending
  have happroved : (⟨⟨"approved", none, none⟩, "ana"⟩ : DecisionRequest).Passes :=
    ⟨lists_decisionCheck.mpr (by decide +kernel), by decide +kernel⟩
  have hreferred : (⟨⟨"referred_to_carrier", none, none⟩, "ana"⟩ : DecisionRequest).Passes :=
    ⟨lists_decisionCheck.mpr (by decide +kernel), by decide +kernel⟩
  refine ⟨?_, ?_, ?_, ?_⟩
  · refine (hdecide _ _ _ _ _).mp
      (.broken _ [⟨"conditions[0]", "condition must not be blank"⟩] ?_ ?_)
    · exact lists_decisionCheck.mpr (by decide +kernel)
    · exact List.cons_ne_nil _ _
  · have hanswer := (hdecide _ _ ⟨180, 0⟩ (.ok ()) _).mp
      (.final _ f happroved hf (by rw [hdeclined]; rfl))
    rwa [hdeclined] at hanswer
  · refine (hdecide _ _ _ _ _).mp (.unreferred _ g _ hreferred hg ?_ ?_ ?_ rfl)
    · rw [hreview]
      rfl
    · decide +kernel
    · rw [hreview]
      decide
  · refine (hsubmit _ _ _ _).mp (.taken _ g ?_ ?_)
    · exact lists_assessmentCheck.mpr (by decide +kernel)
    · rw [← hg]
      decide +kernel

end PolicyDesk
