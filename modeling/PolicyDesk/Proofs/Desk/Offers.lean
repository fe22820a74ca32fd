import PolicyDesk.Proofs.Desk.Runs
import PolicyDesk.Proofs.Desk.Sessions
import PolicyDesk.Proofs.Underwriting.Decisions
import PolicyDesk.Proofs.Workflow

/-!
# What is offered, and what is done

A view offers the codes that may follow. On every desk that is reached, the gate on codes answers
yes to these and no others, and they are the statuses that an underwriter can move the file to, or
an adjuster the claim (`Desk.Reached.offers`).

- **Files** (`FileOffer`): a decision that is not offered is refused, as final when nothing is
  offered at all, and else with the codes that are.
- **Claims** (`ClaimOffer`): a claim moves by the same gate, a closed one too: a reopening is
  offered and done, although the claim is terminal.
-/

namespace PolicyDesk

open WorkflowStatus (allowedNext)

/-- The proposal breaks no rule and names the status. The status is that of its text, in whatever
spelling. -/
def ProposedDecision.Proposes (p : ProposedDecision) (status : UnderwritingStatus) : Prop :=
  p.validate.valid = true ∧ parseStatus p.decision = .ok status

/-- What a file offers of a status, and what comes of it. The view, the gate and the desk say the
same, for every status of the graph. -/
structure FileOffer (config : EvaluationConfig Float) (desk : Desk) (k : PolicyId)
    (f : UnderwritingFile) (status : UnderwritingStatus) : Prop where
  tried : status.code ∈ f.statusView.allowedNext ↔
    Entity.underwriting.transitionAllowed f.status.code status.code = .ok true
  done : status.code ∈ f.statusView.allowedNext ↔
    ∀ p decidedBy now, p.Proposes status → Text.isBlank decidedBy = false →
      let visit : Visit := ⟨.decide k p decidedBy now, .ok ()⟩
      ∃ f', (visit.serve config desk).1 = .file (.ok f') ∧ f'.status = status ∧
        (visit.serve config desk).2.files.find? k = some f'
  refused : status.code ∉ f.statusView.allowedNext →
    ∀ p decidedBy now carrier, p.Proposes status → Text.isBlank decidedBy = false →
      Visit.serve config ⟨.decide k p decidedBy now, carrier⟩ desk =
        (.file (.error (if f.statusView.allowedNext = [] then .finalized f.policyId f.status
          else .transition ⟨.underwriting, f.status.code, status.code,
            f.statusView.allowedNext⟩)), desk)

/-- What a claim offers of a status, and what comes of it. A claim needs no proposal, so there is
nothing in the way but the gate. -/
structure ClaimOffer (config : EvaluationConfig Float) (desk : Desk) (claimId : ClaimId)
    (c : Claim) (status : ClaimStatus) : Prop where
  tried : status.code ∈ c.view.allowedNext ↔
    Entity.claim.transitionAllowed c.status.code status.code = .ok true
  done : status.code ∈ c.view.allowedNext ↔
    ∀ note now carrier,
      let visit : Visit := ⟨.transition claimId ⟨status, note⟩ now, carrier⟩
      ∃ c', (visit.serve config desk).1 = .claim (.ok c') ∧ c'.status = status ∧
        (visit.serve config desk).2.claims.find? claimId = some c'
  refused : status.code ∉ c.view.allowedNext → ∀ note now carrier,
    Visit.serve config ⟨.transition claimId ⟨status, note⟩ now, carrier⟩ desk =
      (.claim (.error (.transition ⟨.claim, c.status.code, status.code, c.view.allowedNext⟩)), desk)
  /-- A terminal claim offers its reopening. -/
  reopened : c.status.isTerminal = true → (status.code ∈ c.view.allowedNext ↔ status = .reopened)

/-! ## Files -/

namespace UnderwritingStatus

/-- Nothing follows a status exactly when it is final. The two are set down apart from each other in
the graph. -/
theorem allowedNext_eq_nil_iff (s : UnderwritingStatus) :
    WorkflowStatus.allowedNext s = [] ↔ s.isTerminal = true := by
  cases s <;> decide

end UnderwritingStatus

namespace ProposedDecision

variable {p : ProposedDecision} {status : UnderwritingStatus}

theorem proposes_iff : p.Proposes status ↔ p.Accepted status := by
  constructor
  · rintro ⟨hvalid, hnamed⟩
    obtain ⟨status', haccepted⟩ := valid_iff.mp hvalid
    obtain rfl : status = status' := Except.ok.inj (hnamed.symm.trans haccepted.named)
    exact haccepted
  · intro h
    exact ⟨valid_iff.mpr ⟨status, h⟩, h.named⟩

/-- Every status can be proposed. It has notes, as a decline needs them. -/
theorem exists_proposes (status : UnderwritingStatus) :
    ∃ p : ProposedDecision, p.Proposes status := by
  have hlength : minDeclineNotes ≤ (Text.trim "as discussed with the broker").length := by
    decide +kernel
  exact ⟨⟨status.code, some "as discussed with the broker", none⟩,
    proposes_iff.mpr ⟨parseStatus_code status, fun _ => hlength, fun c hc => nomatch hc⟩⟩

theorem decides (hp : p.Proposes status) {decidedBy : String}
    (hby : Text.isBlank decidedBy = false) (now : Instant) :
    ∃ d, Decision.ofProposal p decidedBy now = .ok d ∧ d.status = status :=
  ⟨_, Decision.ofProposal_eq_ok.mpr ⟨status, proposes_iff.mp hp, hby, rfl⟩, rfl⟩

end ProposedDecision

namespace UnderwritingFile

theorem mem_offered {f : UnderwritingFile} {status : UnderwritingStatus} :
    status.code ∈ f.statusView.allowedNext ↔ status ∈ allowedNext f.status :=
  mem_allowedCodes

theorem offered_eq_nil {f : UnderwritingFile} :
    f.statusView.allowedNext = [] ↔ f.status.isTerminal = true := by
  rw [← UnderwritingStatus.allowedNext_eq_nil_iff]
  exact List.map_eq_nil_iff

/-- The refusal of a decision that the file does not offer. A final file offers nothing, and is
refused as final. -/
theorem decided_of_not_offered {f : UnderwritingFile} {k : PolicyId} {d : Decision}
    (h : d.status ∉ allowedNext f.status) :
    f.decided k d = .error (if f.statusView.allowedNext = [] then .finalized f.policyId f.status
      else .transition ⟨.underwriting, f.status.code, d.status.code,
        f.statusView.allowedNext⟩) := by
  cases hterm : f.status.isTerminal with
  | true => rw [if_pos (offered_eq_nil.mpr hterm), decided_of_terminal hterm]
  | false =>
    rw [if_neg (by rw [offered_eq_nil, hterm]; simp), decided, ensureOpen_eq_ok.mpr hterm,
      ensureMove, checkTransition_of_not_mem h]
    rfl

end UnderwritingFile

section

variable {config : EvaluationConfig Float} {desk : Desk}

theorem Call.script_decide {k : PolicyId} {p : ProposedDecision} {decidedBy : String}
    {now : Instant} {d : Decision} (h : Decision.ofProposal p decidedBy now = .ok d) :
    (decide k p decidedBy now).script config =
      (decide k p decidedBy now).reading config (.file k) := by
  unfold script
  simp only [h]

/-- A call that has nothing to amend is answered at once. The desk stays as it was. -/
theorem serve_unamended {v : Visit} {id : RecordId} {record : Stored} {reply : Reply}
    (hscript : v.call.script config = v.call.reading config id) (hs : desk.stored? id = some record)
    (hc : v.call.consider config record = .error reply) : v.serve config desk = (reply, desk) := by
  rw [Visit.serve_eq_play, hscript, Call.play_reading, hs]
  simp only [hc]

/-- A decision of which the file that is read allows no draft is refused. -/
theorem serve_decide_error {k : PolicyId} {p : ProposedDecision} {decidedBy : String}
    {now : Instant} {carrier : CarrierAnswer} {d : Decision} {f : UnderwritingFile}
    {e : UnderwritingError} (hd : Decision.ofProposal p decidedBy now = .ok d)
    (hf : desk.files.find? k = some f) (he : f.decided k d = .error e) :
    Visit.serve config ⟨.decide k p decidedBy now, carrier⟩ desk = (.file (.error e), desk) := by
  refine serve_unamended (Call.script_decide hd) (Desk.stored?_file_eq_some.mpr hf) ?_
  unfold Call.consider
  simp only [hd, he]
  rfl

/-- A call makes its amendment, and the amended record is found under the id of the record read. -/
theorem serve_amends {v : Visit} {a : Amendment} (ha : Amends config v.call a)
    (ht : v.call.target? = some a.source.id) (hs : desk.stored? a.source.id = some a.source)
    (hr : a.referral.isSome → v.carrier = .ok ()) :
    (v.serve config desk).1 = a.reply ∧
      (v.serve config desk).2.stored? a.source.id = some a.changed := by
  obtain ⟨desk', hu, hserve⟩ := serve_accepted ha ht hs hr
  rw [hserve, Desk.stored?_of_update hu, if_pos ha.id_eq.symm]
  exact ⟨rfl, rfl⟩

/-- A decision that the gate has is made, unless it is for the carrier and the carrier fails. With a
carrier that accepts there is nothing else that could fail. -/
theorem serve_decided {k : PolicyId} {p : ProposedDecision} {decidedBy : String} {now : Instant}
    {carrier : CarrierAnswer} {d : Decision} {f : UnderwritingFile} (hk : desk.Keyed)
    (hd : Decision.ofProposal p decidedBy now = .ok d) (hf : desk.files.find? k = some f)
    (hopen : f.status.isTerminal = false) (hm : d.status ∈ allowedNext f.status)
    (hr : d.status = .referredToCarrier → carrier = .ok ()) :
    (Visit.serve config ⟨.decide k p decidedBy now, carrier⟩ desk).1 =
        .file (.ok (f.withDecision d)) ∧
      (Visit.serve config ⟨.decide k p decidedBy now, carrier⟩ desk).2.files.find? k =
        some (f.withDecision d) := by
  have hs : desk.stored? (.file k) = some (.file f) := Desk.stored?_file_eq_some.mpr hf
  obtain rfl : f.policyId = k := RecordId.file.inj (hk _ _ hs)
  have ha : Amends config (.decide f.policyId p decidedBy now) (.decision f f.policyId d) :=
    .decision f.policyId p decidedBy now f d hd hopen hm
  -- A referral is made only of a decision for the carrier.
  have htold : (Amendment.decision f f.policyId d).referral.isSome → carrier = .ok () := by
    intro hsome
    obtain ⟨r, hreferral⟩ := Option.isSome_iff_exists.mp hsome
    exact hr (UnderwritingFile.decisionReferral_eq_some.mp hreferral).1
  obtain ⟨hreply, hstored⟩ :=
    serve_amends (v := ⟨.decide f.policyId p decidedBy now, carrier⟩) ha rfl hs htold
  exact ⟨hreply, Desk.stored?_file_eq_some.mp hstored⟩

section

variable {k : PolicyId} {f : UnderwritingFile} (hf : desk.files.find? k = some f)
  {p : ProposedDecision} {status : UnderwritingStatus} (hp : p.Proposes status)
  {decidedBy : String} (hby : Text.isBlank decidedBy = false)
include hf hp hby

/-- A decision that the file offers is made. Whatever it says besides, as long as it breaks no rule.
-/
private theorem serve_decide_offered (hk : desk.Keyed) (hm : status ∈ allowedNext f.status)
    (now : Instant) :
    let visit : Visit := ⟨.decide k p decidedBy now, .ok ()⟩
    ∃ f', (visit.serve config desk).1 = .file (.ok f') ∧ f'.status = status ∧
      (visit.serve config desk).2.files.find? k = some f' := by
  dsimp only
  obtain ⟨d, hd, rfl⟩ := p.decides hp hby now
  have hopen : f.status.isTerminal = false := by
    rw [← Bool.not_eq_true, ← UnderwritingStatus.allowedNext_eq_nil_iff]
    exact List.ne_nil_of_mem hm
  obtain ⟨hreply, hstored⟩ := serve_decided hk hd hf hopen hm fun _ => rfl
  exact ⟨f.withDecision d, hreply, rfl, hstored⟩

/-- A decision that the file does not offer is refused. The carrier is not asked. -/
private theorem serve_decide_refused (hm : status ∉ allowedNext f.status) (now : Instant)
    (carrier : CarrierAnswer) :
    Visit.serve config ⟨.decide k p decidedBy now, carrier⟩ desk =
      (.file (.error (if f.statusView.allowedNext = [] then .finalized f.policyId f.status
        else .transition ⟨.underwriting, f.status.code, status.code,
          f.statusView.allowedNext⟩)), desk) := by
  obtain ⟨d, hd, rfl⟩ := p.decides hp hby now
  exact serve_decide_error hd hf (UnderwritingFile.decided_of_not_offered hm)

end

/-- The file offers a status exactly when it can be moved there. Both directions of `done` are
needed: what is offered can be done, and nothing else can. -/
theorem fileOffer (hk : desk.Keyed) {k : PolicyId} {f : UnderwritingFile}
    (hf : desk.files.find? k = some f) (status : UnderwritingStatus) :
    FileOffer config desk k f status where
  tried := UnderwritingFile.mem_offered.trans moveAllowed_eq_true.symm
  done := by
    rw [UnderwritingFile.mem_offered]
    refine ⟨fun hm p decidedBy now hp hby => serve_decide_offered hf hp hby hk hm now, fun h => ?_⟩
    obtain ⟨p, hp⟩ := ProposedDecision.exists_proposes status
    -- Were it not offered, a proposal of it would be refused, and there is one for each status.
    by_contra hm
    obtain ⟨f', hreply, -, -⟩ := h p "ana" ⟨0, 0⟩ hp (by decide)
    rw [serve_decide_refused hf hp (by decide) hm] at hreply
    cases hreply
  refused hm p decidedBy now carrier hp hby :=
    serve_decide_refused hf hp hby (mt UnderwritingFile.mem_offered.mpr hm) now carrier

/-! ## Claims -/

namespace Claim

theorem mem_offered {c : Claim} {status : ClaimStatus} :
    status.code ∈ c.view.allowedNext ↔ status ∈ allowedNext c.status :=
  mem_allowedCodes

/-- The refusal of a move that the claim does not offer. A claim is never refused as final; a
terminal one names what it still allows. -/
theorem moved_of_not_offered {c : Claim} {status : ClaimStatus} (h : status ∉ allowedNext c.status)
    (note : Option String) (now : Instant) :
    c.moved ⟨status, note⟩ now =
      .error ⟨.claim, c.status.code, status.code, c.view.allowedNext⟩ := by
  rw [moved, checkTransition_of_not_mem h]
  rfl

end Claim

theorem ClaimStatus.mem_allowedNext_of_terminal {s t : ClaimStatus} (h : s.isTerminal = true) :
    t ∈ WorkflowStatus.allowedNext s ↔ t = .reopened := by
  cases s <;> cases h
  exact List.mem_singleton

section

variable {claimId : ClaimId} {c : Claim} (hc : desk.claims.find? claimId = some c)
  {status : ClaimStatus}
include hc

/-- A move that the claim does not offer is refused. -/
private theorem serve_transition_refused (hm : status ∉ allowedNext c.status) (note : Option String)
    (now : Instant) (carrier : CarrierAnswer) :
    Visit.serve config ⟨.transition claimId ⟨status, note⟩ now, carrier⟩ desk =
      (.claim (.error (.transition ⟨.claim, c.status.code, status.code, c.view.allowedNext⟩)),
        desk) := by
  have hs : desk.stored? (.claim claimId) = some (.claim c) := Desk.stored?_claim_eq_some.mpr hc
  refine serve_unamended rfl hs ?_
  unfold Call.consider
  simp only [Claim.moved_of_not_offered hm]

/-- A move that the claim offers is made. The carrier has no say in it. -/
private theorem serve_transition_offered (hk : desk.Keyed) (hm : status ∈ allowedNext c.status)
    (note : Option String) (now : Instant) (carrier : CarrierAnswer) :
    let visit : Visit := ⟨.transition claimId ⟨status, note⟩ now, carrier⟩
    ∃ c', (visit.serve config desk).1 = .claim (.ok c') ∧ c'.status = status ∧
      (visit.serve config desk).2.claims.find? claimId = some c' := by
  intro visit
  have hs : desk.stored? (.claim claimId) = some (.claim c) := Desk.stored?_claim_eq_some.mpr hc
  obtain rfl : c.claimId = claimId := RecordId.claim.inj (hk _ _ hs)
  have ha : Amends config visit.call (.move c (c.change ⟨status, note⟩ now)) :=
    .move c.claimId ⟨status, note⟩ now c hm
  obtain ⟨hreply, hstored⟩ := serve_amends ha rfl hs fun h => nomatch h
  exact ⟨_, hreply, rfl, Desk.stored?_claim_eq_some.mp hstored⟩

end

/-- The claim offers a status exactly when it can be moved there. -/
theorem claimOffer (hk : desk.Keyed) {claimId : ClaimId} {c : Claim}
    (hc : desk.claims.find? claimId = some c) (status : ClaimStatus) :
    ClaimOffer config desk claimId c status where
  tried := Claim.mem_offered.trans moveAllowed_eq_true.symm
  done := by
    rw [Claim.mem_offered]
    refine ⟨fun hm note now carrier => serve_transition_offered hc hk hm note now carrier,
      fun h => ?_⟩
    -- A move that is not offered is refused, whatever its note.
    by_contra hm
    obtain ⟨c', hreply, -, -⟩ := h none ⟨0, 0⟩ (.ok ())
    rw [serve_transition_refused hc hm] at hreply
    cases hreply
  refused hm note now carrier :=
    serve_transition_refused hc (mt Claim.mem_offered.mpr hm) note now carrier
  reopened hterm := by rw [Claim.mem_offered, ClaimStatus.mem_allowedNext_of_terminal hterm]

end

/-! ## Desks -/

theorem Desk.Reached.keyed {config : EvaluationConfig Float} {desk : Desk}
    (h : desk.Reached config) : desk.Keyed := by
  cases h with
  | served visits => exact Session.keyed visits
  | stepped moves => exact (Floor.sound moves).ledger.keyed

/-- **Offers.** What a view offers, what the gate on codes answers and what can be done agree. It
holds between visits and in the middle of them, since only what is stored counts. -/
theorem Desk.Reached.offers {config : EvaluationConfig Float} {desk : Desk}
    (h : desk.Reached config) :
    (∀ k f status, desk.files.find? k = some f → FileOffer config desk k f status) ∧
      ∀ claimId c status, desk.claims.find? claimId = some c →
        ClaimOffer config desk claimId c status :=
  ⟨fun _ _ status hf => fileOffer h.keyed hf status,
    fun _ _ status hc => claimOffer h.keyed hc status⟩

/-- A file in review and a closed claim. -/
theorem Desk.Reached.offers_of_review :
    let visits : List Visit :=
      [⟨.submit ⟨"pol-1", 85, none, [⟨"CLAIMS_HISTORY", 85, 1, none⟩], "ana", none⟩ ⟨0, 0⟩,
          .ok ()⟩,
       ⟨.decide "pol-1" ⟨"in_review", none, none⟩ "ana" ⟨60, 0⟩, .ok ()⟩,
       ⟨.openClaim ⟨"pol-1", "hail"⟩, .ok ()⟩,
       ⟨.transition "clm-000001" ⟨.denied, none⟩ ⟨120, 0⟩, .ok ()⟩,
       ⟨.transition "clm-000001" ⟨.closed, none⟩ ⟨180, 0⟩, .ok ()⟩]
    let desk := (Session.run .standard visits).desk
    ∃ f c, desk.files.find? "pol-1" = some f ∧ f.status = .inReview ∧
      desk.claims.find? "clm-000001" = some c ∧ c.status = .closed ∧
      (∀ status, FileOffer .standard desk "pol-1" f status) ∧
      ∀ status, ClaimOffer .standard desk "clm-000001" c status := by
  intro visits desk
  have hfile : (desk.files.find? "pol-1").map (·.status) = some .inReview := by
    decide +kernel
  have hclaim : (desk.claims.find? "clm-000001").map (·.status) = some .closed := by
    decide +kernel
  obtain ⟨f, hf, hreview⟩ := Option.map_eq_some_iff.mp hfile
  obtain ⟨c, hc, hclosed⟩ := Option.map_eq_some_iff.mp hclaim
  have hreached : desk.Reached .standard := .served visits
  obtain ⟨hfiles, hclaims⟩ := hreached.offers
  exact ⟨f, c, hf, hreview, hc, hclosed, fun status => hfiles "pol-1" f status hf,
    fun status => hclaims "clm-000001" c status hc⟩

end PolicyDesk
