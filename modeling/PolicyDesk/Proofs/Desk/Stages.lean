import PolicyDesk.Proofs.Desk.Drafts
import PolicyDesk.Proofs.Desk.Script

/-!
# The stages of a call

What a call does between its first step and its last, and which amendments refer a file.
-/

namespace PolicyDesk

/-! ## Calls stage by stage

The script of a call, written out (`Call.script`, `program_eq_script`). A call that changes a record
goes through these stages:

- it **fetches** the record and considers it (`Call.consider`): the call is answered at once, or it
  has an `Amendment` to make;
- it **refers** the file to the carrier, if the amendment says so (`Call.carry`);
- it **writes** the amended record, against the revision that it read (`Call.write`).

A call that opens a record has a single step, its insertion; the number of a new claim is drawn
right before it.

`Amends` lists the amendments that calls make (`consider_eq_ok`). -/

section

open WorkflowStatus (allowedNext)

/-- What a call makes of the record that it has read. It is settled before the carrier is asked, so
the answer of the carrier cannot change it. -/
structure Amendment where
  /-- The record as it was read. -/
  source : Stored
  /-- The record as it is to be stored. -/
  changed : Stored
  /-- What the carrier is told first. -/
  referral : Option Referral
  /-- The reply once the record is stored. -/
  reply : Reply

namespace Call

/-- The reply to a call whose store fails. It tells the caller in the type that the call replies in.
-/
def failed : Call → StoreError → Reply
  | evaluate _, e => .outcome (.error (.store e))
  | queue _, e => .files (.error (.store e))
  | openClaim _, e => .claim (.error (.store e))
  | transition _ _ _, e => .claim (.error (.store e))
  | getClaim _, e => .claim (.error (.store e))
  | _, e => .file (.error (.store e))

/-- The reply to a call whose referral fails. Only evaluations and decisions refer, so the other
calls never reply so. -/
def unreferred : Call → CarrierError → Reply
  | evaluate _, e => .outcome (.error (.carrier e))
  | _, e => .file (.error (.carrier e))

/-- The amendment that a draft of a file stands for. A draft that is refused is a reply at once. -/
def ofDraft {β : Type} (f : UnderwritingFile) (wrap : Except UnderwritingError β → Reply) :
    Except UnderwritingError (Draft β) → Except Reply Amendment
  | .ok draft => .ok ⟨.file f, .file draft.file, draft.referral, wrap (.ok draft.answer)⟩
  | .error e => .error (wrap (.error e))

/-- What a call makes of the record that it reads: a reply at once, or an amendment. It is pure: the
desk is not looked at again. -/
def consider (config : EvaluationConfig Float) : Call → Stored → Except Reply Amendment
  | evaluate _, .file f => ofDraft f .outcome (f.evaluated config)
  | decide policyId proposal decidedBy now, .file f =>
    match Decision.ofProposal proposal decidedBy now with
    | .ok decision => ofDraft f .file (f.decided policyId decision)
    | .error report => .error (.file (.error (.violations report)))
  | transition _ request now, .claim c =>
    match c.moved request now with
    | .ok changed => .ok ⟨.claim c, .claim changed, none, .claim (.ok changed)⟩
    | .error e => .error (.claim (.error (.transition e)))
  | getFile _, .file f => .error (.file (.ok f))
  | getClaim _, .claim c => .error (.claim (.ok c))
  | c, _ => .error (c.failed .notFound)

/-- The end of a call: its reply if the store accepts, else the failure. The reply was ready before
the write. -/
def settle (c : Call) (reply : Reply) : Except StoreError Unit → Script Reply
  | .ok () => .done reply
  | .error e => .done (c.failed e)

/-- The stage of the write. It is refused when the record has moved since it was read. -/
def write (c : Call) (a : Amendment) : Script Reply :=
  .step (.update a.changed a.source.revision) (c.settle a.reply)

/-- What follows the answer of the carrier. A carrier that refuses ends the call without a write. -/
def heard (c : Call) (a : Amendment) : CarrierAnswer → Script Reply
  | .ok () => c.write a
  | .error e => .done (c.unreferred e)

/-- The stage of the referral, and the write after it. Without a referral the write is next. -/
def carry (c : Call) (a : Amendment) : Script Reply :=
  match a.referral with
  | none => c.write a
  | some r => .step (.refer r) (c.heard a)

/-- What follows the fetch. A record of the other kind counts as missing. -/
def proceed (config : EvaluationConfig Float) (c : Call) :
    Except StoreError (Option Stored) → Script Reply
  | .error e => .done (c.failed e)
  | .ok none => .done (c.failed .notFound)
  | .ok (some record) =>
    match c.consider config record with
    | .ok a => c.carry a
    | .error reply => .done reply

/-- A call that reads the record of an id. Its first step is the fetch. -/
def reading (config : EvaluationConfig Float) (c : Call) (id : RecordId) : Script Reply :=
  .step (.fetch id) (c.proceed config)

/-- A call that opens a file. A refused assessment has no step at all. -/
def opening (c : Call) : Except Report (Assessment Float) → Script Reply
  | .ok a => .step (.insert (.file (.ofAssessment a))) (c.settle (.file (.ok (.ofAssessment a))))
  | .error report => .done (.file (.error (.violations report)))

/-- A call that opens a claim under a number. The number is drawn already, and is not given back
should the insertion fail. -/
def numbered (request : OpenClaim) (n : UInt64) : Script Reply :=
  .step (.insert (.claim (.ofRequest (claimNumber n) request)))
    ((openClaim request).settle (.claim (.ok (.ofRequest (claimNumber n) request))))

/-- The script of a call, written out. What each stage does can be read off without running the
operation. -/
def script (config : EvaluationConfig Float) (c : Call) : Script Reply :=
  match c with
  | submit input now => c.opening (input.build now)
  | score request now => c.opening (config.assess request now)
  | evaluate policyId => c.reading config (.file policyId)
  | decide policyId proposal decidedBy now =>
    match Decision.ofProposal proposal decidedBy now with
    | .ok _ => c.reading config (.file policyId)
    | .error report => .done (.file (.error (.violations report)))
  | getFile policyId => c.reading config (.file policyId)
  | queue limit =>
    .step (.pending limit) fun result => .done (.files (Except.mapError .store result))
  | openClaim request =>
    if Text.isBlank request.policyId then .done (.claim (.error .missingPolicy))
    else .step .number (numbered request)
  | transition claimId _ _ => c.reading config (.claim claimId)
  | getClaim claimId => c.reading config (.claim claimId)

/-- A program that opens a file for an assessment that it has checked. Submissions and score
requests differ in the check alone. -/
private theorem openFile_eq_opening {c : Call} (hf : ∀ e, c.failed e = .file (.error (.store e)))
    (checked : Except Report (Assessment Float)) :
    (Reply.file <$> (do Underwriting.openFile (← Underwriting.require .violations checked) :
      ExceptT UnderwritingError Script UnderwritingFile).run) = c.opening checked := by
  cases checked with
  | error report => rfl
  | ok a =>
    refine congrArg (Script.step _) (funext fun result => ?_)
    cases result with
    | ok u => rfl
    | error e => exact congrArg Script.done (hf e).symm

/-- The two stages that carry a draft out. The draft must expect the revision of the file that was
read. -/
private theorem commit_eq_carry {β : Type} {c : Call} {wrap : Except UnderwritingError β → Reply}
    (hf : ∀ e, c.failed e = wrap (.error (.store e)))
    (hu : ∀ e, c.unreferred e = wrap (.error (.carrier e))) {f : UnderwritingFile}
    {draft : Draft β} (hr : draft.expected = f.revision) :
    (wrap <$> (Underwriting.commit draft : ExceptT UnderwritingError Script β).run) =
      c.carry ⟨.file f, .file draft.file, draft.referral, wrap (.ok draft.answer)⟩ := by
  have hw : (wrap <$> (do
      attempt .store (RecordStore.update draft.file draft.expected)
      return draft.answer : ExceptT UnderwritingError Script β).run) =
      c.write ⟨.file f, .file draft.file, draft.referral, wrap (.ok draft.answer)⟩ := by
    rw [hr]
    refine congrArg (Script.step _) (funext fun result => ?_)
    cases result with
    | ok u => rfl
    | error e => exact congrArg Script.done (hf e).symm
  unfold carry Underwriting.commit
  cases draft.referral with
  | none => exact hw
  | some r =>
    refine congrArg (Script.step _) (funext fun answer => ?_)
    cases answer with
    | ok u => exact hw
    | error e => exact congrArg Script.done (hu e).symm

/-- A program that amends a file, from its fetch on. Evaluations and decisions share it; they differ
in what they make of the file. -/
private theorem amend_eq_reading {β : Type} {config : EvaluationConfig Float} {c : Call}
    {policyId : PolicyId} {wrap : Except UnderwritingError β → Reply}
    {check : UnderwritingFile → Except UnderwritingError (Draft β)}
    (hf : ∀ e, c.failed e = wrap (.error (.store e)))
    (hu : ∀ e, c.unreferred e = wrap (.error (.carrier e)))
    (hr : ∀ f draft, check f = .ok draft → draft.expected = f.revision)
    (hc : ∀ f, c.consider config (.file f) = ofDraft f wrap (check f))
    (hn : ∀ cl, c.consider config (.claim cl) = .error (c.failed .notFound)) :
    (wrap <$> (do
      let file ← Underwriting.get policyId
      Underwriting.commit (← Underwriting.require id (check file)) :
        ExceptT UnderwritingError Script β).run) = c.reading config (.file policyId) := by
  refine congrArg (Script.step _) (funext fun found => ?_)
  match found with
  | .error e => exact congrArg Script.done (hf e).symm
  | .ok none => exact congrArg Script.done (hf .notFound).symm
  | .ok (some (.claim cl)) =>
    simp only [proceed, hn]
    exact congrArg Script.done (hf .notFound).symm
  | .ok (some (.file f)) =>
    show (wrap <$> (do Underwriting.commit (← Underwriting.require id (check f)) :
      ExceptT UnderwritingError Script β).run) = _
    simp only [proceed, hc]
    cases h : check f with
    | error e => rfl
    | ok draft => exact commit_eq_carry hf hu (hr f draft h)

/-- The program that opens a claim, from the number on. -/
private theorem openClaim_eq_numbered (request : OpenClaim) (n : UInt64) :
    (Reply.claim <$> (do
      let claim := Claim.ofRequest (claimNumber n) request
      attempt .store (RecordStore.insert claim)
      return claim : ExceptT ClaimError Script Claim).run) = numbered request n := by
  refine congrArg (Script.step _) (funext fun result => ?_)
  cases result <;> rfl

/-- The program that moves a claim, from its fetch on. No referral is made for a claim. -/
private theorem transition_eq_reading (config : EvaluationConfig Float) (claimId : ClaimId)
    (request : ClaimTransition) (now : Instant) :
    (Reply.claim <$>
      (Claims.transition claimId request now : ExceptT ClaimError Script Claim).run) =
      (transition claimId request now).reading config (.claim claimId) := by
  refine congrArg (Script.step _) (funext fun found => ?_)
  match found with
  | .error e => rfl
  | .ok none => rfl
  | .ok (some (.file f)) => rfl
  | .ok (some (.claim cl)) =>
    show (Reply.claim <$> (do
      let changed ← attempt .transition (pure (cl.moved request now))
      attempt .store (RecordStore.update changed cl.revision)
      return changed : ExceptT ClaimError Script Claim).run) = _
    unfold proceed consider
    dsimp only
    cases cl.moved request now with
    | error e => rfl
    | ok changed =>
      refine congrArg (Script.step _) (funext fun result => ?_)
      cases result <;> rfl

private theorem evaluated_expected {f : UnderwritingFile} {config : EvaluationConfig Float}
    {draft : Draft (EvaluationOutcome Float)} (h : f.evaluated config = .ok draft) :
    draft.expected = f.revision := by
  obtain ⟨-, -, rfl⟩ := UnderwritingFile.evaluated_eq_ok.mp h
  rfl

private theorem decided_expected {f : UnderwritingFile} {policyId : PolicyId} {decision : Decision}
    {draft : Draft UnderwritingFile} (h : f.decided policyId decision = .ok draft) :
    draft.expected = f.revision := by
  obtain ⟨-, -, rfl⟩ := UnderwritingFile.decided_eq_ok.mp h
  rfl

/-- The script is the operation of the call, run over scripts. -/
theorem program_eq_script (config : EvaluationConfig Float) (c : Call) :
    (c.program config : Script Reply) = c.script config := by
  cases c with
  | submit input now => exact openFile_eq_opening (fun _ => rfl) (input.build now)
  | score request now => exact openFile_eq_opening (fun _ => rfl) (config.assess request now)
  | evaluate policyId =>
    exact amend_eq_reading (fun _ => rfl) (fun _ => rfl) (fun _ _ h => evaluated_expected h)
      (fun _ => rfl) (fun _ => rfl)
  | decide policyId proposal decidedBy now =>
    unfold script program Underwriting.decide
    dsimp only
    cases h : Decision.ofProposal proposal decidedBy now with
    | error report => rfl
    | ok decision =>
      -- The proposal is read again with the file; by `h` it gives the same decision.
      refine amend_eq_reading (fun _ => rfl) (fun _ => rfl) (fun _ _ h => decided_expected h)
        (fun f => ?_) (fun _ => rfl)
      unfold consider
      simp only [h]
  | getFile policyId =>
    refine congrArg (Script.step _) (funext fun found => ?_)
    rcases found with e | (_ | (f | cl)) <;> rfl
  | queue limit =>
    refine congrArg (Script.step _) (funext fun found => ?_)
    cases found <;> rfl
  | openClaim request =>
    unfold script program Claims.openClaim
    dsimp only
    by_cases hb : Text.isBlank request.policyId = true
    · simp only [hb, if_true]
      rfl
    · simp only [hb]
      exact congrArg (Script.step _) (funext (openClaim_eq_numbered request))
  | transition claimId request now => exact transition_eq_reading config claimId request now
  | getClaim claimId =>
    refine congrArg (Script.step _) (funext fun found => ?_)
    rcases found with e | (_ | (f | cl)) <;> rfl

end Call

/-! ### The amendments -/

namespace Amendment

/-- The amendment of an evaluation. It replies with the outcome and not with the file. -/
def evaluation (f : UnderwritingFile) (outcome : EvaluationOutcome Float) : Amendment where
  source := .file f
  changed := .file (f.withOutcome outcome)
  referral := UnderwritingFile.evaluationReferral outcome
  reply := .outcome (.ok outcome)

/-- The amendment of a decision on the file of a policy. The policy id is that of the call, which
names the file that was read. -/
def decision (f : UnderwritingFile) (policyId : PolicyId) (d : Decision) : Amendment where
  source := .file f
  changed := .file (f.withDecision d)
  referral := f.decisionReferral policyId d
  reply := .file (.ok (f.withDecision d))

/-- The amendment of a status change of a claim. The carrier is never told of a claim. -/
def move (c : Claim) (entry : StatusChange) : Amendment where
  source := .claim c
  changed := .claim (c.withChange entry)
  referral := none
  reply := .claim (.ok (c.withChange entry))

end Amendment

/-- The amendments that the calls make. The conditions are those of the two gates: the file is open,
and the graph has the move. -/
inductive Amends (config : EvaluationConfig Float) : Call → Amendment → Prop
  | evaluation (policyId : PolicyId) (f : UnderwritingFile) :
    f.status.isTerminal = false →
    (config.evaluate f.assessment).recommendedStatus ∈ allowedNext f.status →
    Amends config (.evaluate policyId) (.evaluation f (config.evaluate f.assessment))
  | decision (policyId : PolicyId) (proposal : ProposedDecision) (decidedBy : String)
    (now : Instant) (f : UnderwritingFile) (d : Decision) :
    Decision.ofProposal proposal decidedBy now = .ok d →
    f.status.isTerminal = false → d.status ∈ allowedNext f.status →
    Amends config (.decide policyId proposal decidedBy now) (.decision f policyId d)
  | move (claimId : ClaimId) (request : ClaimTransition) (now : Instant) (c : Claim) :
    request.status ∈ allowedNext c.status →
    Amends config (.transition claimId request now) (.move c (c.change request now))

namespace Call

private theorem ofDraft_eq_ok {β : Type} {f : UnderwritingFile}
    {wrap : Except UnderwritingError β → Reply} {result : Except UnderwritingError (Draft β)}
    {a : Amendment} :
    ofDraft f wrap result = .ok a ↔ ∃ draft, result = .ok draft ∧
      a = ⟨.file f, .file draft.file, draft.referral, wrap (.ok draft.answer)⟩ := by
  cases result <;> simp [ofDraft, eq_comm]

private theorem consider_evaluate {config : EvaluationConfig Float} {policyId : PolicyId}
    {f : UnderwritingFile} {a : Amendment} :
    (evaluate policyId).consider config (.file f) = .ok a ↔
      f.status.isTerminal = false ∧
      (config.evaluate f.assessment).recommendedStatus ∈ allowedNext f.status ∧
      a = .evaluation f (config.evaluate f.assessment) := by
  unfold consider
  dsimp only
  rw [ofDraft_eq_ok]
  constructor
  · rintro ⟨draft, hd, rfl⟩
    obtain ⟨ho, hm, rfl⟩ := UnderwritingFile.evaluated_eq_ok.mp hd
    exact ⟨ho, hm, rfl⟩
  · rintro ⟨ho, hm, rfl⟩
    exact ⟨_, UnderwritingFile.evaluated_eq_ok.mpr ⟨ho, hm, rfl⟩, rfl⟩

private theorem consider_decide {config : EvaluationConfig Float} {policyId : PolicyId}
    {proposal : ProposedDecision} {decidedBy : String} {now : Instant} {d : Decision}
    (hp : Decision.ofProposal proposal decidedBy now = .ok d) {f : UnderwritingFile}
    {a : Amendment} :
    (decide policyId proposal decidedBy now).consider config (.file f) = .ok a ↔
      f.status.isTerminal = false ∧ d.status ∈ allowedNext f.status ∧
      a = .decision f policyId d := by
  unfold consider
  simp only [hp]
  rw [ofDraft_eq_ok]
  constructor
  · rintro ⟨draft, hd, rfl⟩
    obtain ⟨ho, hm, rfl⟩ := UnderwritingFile.decided_eq_ok.mp hd
    exact ⟨ho, hm, rfl⟩
  · rintro ⟨ho, hm, rfl⟩
    exact ⟨_, UnderwritingFile.decided_eq_ok.mpr ⟨ho, hm, rfl⟩, rfl⟩

private theorem consider_transition {config : EvaluationConfig Float} {claimId : ClaimId}
    {request : ClaimTransition} {now : Instant} {c : Claim} {a : Amendment} :
    (transition claimId request now).consider config (.claim c) = .ok a ↔
      request.status ∈ allowedNext c.status ∧ a = .move c (c.change request now) := by
  unfold consider
  dsimp only
  constructor
  · intro h
    cases hd : c.moved request now with
    | error e => rw [hd] at h; cases h
    | ok changed =>
      rw [hd] at h
      obtain ⟨hm, rfl⟩ := Claim.moved_eq_ok.mp hd
      cases h
      exact ⟨hm, rfl⟩
  · rintro ⟨hm, rfl⟩
    rw [Claim.moved_eq_ok.mpr ⟨hm, rfl⟩]
    rfl

/-- A call that has read a record has an amendment to make exactly when it is one of `Amends`. What
it was read as is the source of the amendment. -/
theorem consider_eq_ok {config : EvaluationConfig Float} {c : Call} {record : Stored}
    {a : Amendment} :
    c.consider config record = .ok a ↔ Amends config c a ∧ a.source = record := by
  constructor
  · intro h
    cases c with
    | evaluate policyId =>
      cases record with
      | claim cl => cases h
      | file f =>
        obtain ⟨ho, hm, rfl⟩ := consider_evaluate.mp h
        exact ⟨.evaluation policyId f ho hm, rfl⟩
    | decide policyId proposal decidedBy now =>
      cases record with
      | claim cl => cases h
      | file f =>
        cases hp : Decision.ofProposal proposal decidedBy now with
        | error report =>
          unfold consider at h
          simp [hp] at h
        | ok d =>
          obtain ⟨ho, hm, rfl⟩ := (consider_decide hp).mp h
          exact ⟨.decision policyId proposal decidedBy now f d hp ho hm, rfl⟩
    | transition claimId request now =>
      cases record with
      | file f => cases h
      | claim cl =>
        obtain ⟨hm, rfl⟩ := consider_transition.mp h
        exact ⟨.move claimId request now cl hm, rfl⟩
    | submit input now => cases h
    | score request now => cases h
    | getFile policyId => cases record <;> cases h
    | queue limit => cases h
    | openClaim request => cases h
    | getClaim claimId => cases record <;> cases h
  · rintro ⟨ha, rfl⟩
    cases ha with
    | evaluation policyId f ho hm => exact consider_evaluate.mpr ⟨ho, hm, rfl⟩
    | decision policyId proposal decidedBy now f d hp ho hm =>
      exact (consider_decide hp).mpr ⟨ho, hm, rfl⟩
    | move claimId request now cl hm => exact consider_transition.mpr ⟨hm, rfl⟩

end Call

namespace Amends

variable {config : EvaluationConfig Float} {c : Call} {a : Amendment}

/-- An amendment keeps the id of the record. So an amended record is found where it was. -/
theorem id_eq (h : Amends config c a) : a.changed.id = a.source.id := by
  cases h <;> rfl

/-- An amendment takes the record to its next revision. -/
theorem revision_eq (h : Amends config c a) : a.changed.revision = a.source.revision + 1 := by
  cases h <;> rfl

/-- Claims are amended by allowed status changes. Nothing else is ever done to one. -/
theorem of_claim {cl : Claim} (h : Amends config c a) (hs : a.source = .claim cl) :
    ∃ request now, request.status ∈ allowedNext cl.status ∧
      a.changed = .claim (cl.withChange (cl.change request now)) := by
  cases h with
  | evaluation _ _ _ _ => cases hs
  | decision _ _ _ _ _ _ _ _ _ => cases hs
  | move _ request now _ hmove =>
    cases hs
    exact ⟨request, now, hmove, rfl⟩

end Amends

end

/-! ## Amendments that refer a file

An amendment has a referral exactly when it moves a file to the carrier, and the referral names the
policy of the file (`referral_of_referred`, `referred_of_referral`). A file that was referred once
never comes back to be referred again (`pastReferral_of_move`). -/

section

open WorkflowStatus (allowedNext)

namespace UnderwritingStatus

/-- The statuses of a file that was referred to the carrier at some time. No edge of the graph leads
back out of them. -/
def pastReferral : UnderwritingStatus → Bool
  | referredToCarrier => true
  | conditionallyApproved => true
  | approved => true
  | declined => true
  | _ => false

/-- A file that was referred moves on, and not to the carrier. So a file is at REFERRED_TO_CARRIER
for one stretch of its life at most. -/
theorem pastReferral_of_move {s t : UnderwritingStatus} (hs : s.pastReferral = true)
    (ht : t ∈ allowedNext s) : t.pastReferral = true ∧ t ≠ referredToCarrier := by
  cases s <;> cases hs <;> cases t <;> revert ht <;> decide

end UnderwritingStatus

namespace Amends

variable {config : EvaluationConfig Float} {c : Call} {a : Amendment}

/-- What is amended to a file was a file, at a status that the move leaves. -/
theorem file_of_changed {f : UnderwritingFile} (h : Amends config c a) (hc : a.changed = .file f) :
    ∃ f₀, a.source = .file f₀ ∧ f₀.policyId = f.policyId ∧ f.status ∈ allowedNext f₀.status := by
  cases h with
  | evaluation policyId f₀ _ hm =>
    cases hc
    exact ⟨f₀, rfl, rfl, hm⟩
  | decision policyId proposal decidedBy now f₀ d _ _ hm =>
    cases hc
    exact ⟨f₀, rfl, rfl, hm⟩
  | move _ _ _ _ _ => cases hc

/-- A file is moved to the carrier with a referral of its policy. The file was read under the id of
the call, which is the policy of the referral. -/
theorem referral_of_referred {f : UnderwritingFile} (h : Amends config c a)
    (ht : c.target? = some a.source.id) (hc : a.changed = .file f)
    (hs : f.status = .referredToCarrier) : ∃ r, a.referral = some r ∧ r.policyId = f.policyId := by
  cases h with
  | evaluation policyId f₀ _ _ =>
    cases hc
    exact ⟨_, UnderwritingFile.evaluationReferral_eq_some.mpr ⟨hs, rfl⟩, rfl⟩
  | decision policyId proposal decidedBy now f₀ d _ _ _ =>
    cases hc
    cases ht
    exact ⟨_, UnderwritingFile.decisionReferral_eq_some.mpr ⟨hs, rfl⟩, rfl⟩
  | move _ _ _ _ _ => cases hc

/-- A referral is of the policy of a file that is moved to the carrier. Nothing is referred but on
the way to that status. -/
theorem referred_of_referral {r : Referral} (h : Amends config c a)
    (ht : c.target? = some a.source.id) (hr : a.referral = some r) :
    ∃ f, a.changed = .file f ∧ f.status = .referredToCarrier ∧ f.policyId = r.policyId := by
  cases h with
  | evaluation policyId f₀ _ _ =>
    obtain ⟨hs, rfl⟩ := UnderwritingFile.evaluationReferral_eq_some.mp hr
    exact ⟨_, rfl, hs, rfl⟩
  | decision policyId proposal decidedBy now f₀ d _ _ _ =>
    obtain ⟨hs, rfl⟩ := UnderwritingFile.decisionReferral_eq_some.mp hr
    cases ht
    exact ⟨_, rfl, hs, rfl⟩
  | move _ _ _ _ _ => cases hr

end Amends

end

end PolicyDesk
