import PolicyDesk.Proofs.Desk.Stages

/-!
# What a visit does to a desk

- **Steps** (`DeskOp.apply`): each step of a script, on a desk, given in terms of what the desk has
  stored.
- **Shapes** (`Call.Shape`, `script_shape`): a call is refused at once, lists the queue, opens a
  record, or reads a record and goes on from there.
- **Visits** (`Effect`, `serve_effect`): a visit on a desk that keeps every record under its own id
  leaves it as it was, draws a number in vain, opens one record, or amends one record and tells the
  carrier what the amendment says. Where a record can be opened or amended, that is what the visit
  does (`serve_openedFile`, `serve_openedClaim`, `serve_amended`).
-/

namespace PolicyDesk

/-! ## Steps -/

/-- The desk after a claim number was drawn. Nothing is stored by that alone. -/
def Desk.drawNumber (desk : Desk) : Desk := { desk with nextClaim := desk.nextClaim + 1 }

/-- The desk after the carrier accepted referrals. They are logged in the order in which they were
accepted. -/
def Desk.told (desk : Desk) (referrals : List Referral) : Desk :=
  { desk with referrals := desk.referrals ++ referrals }

namespace Desk

@[simp] theorem stored?_drawNumber (desk : Desk) (id : RecordId) :
    desk.drawNumber.stored? id = desk.stored? id := by
  cases id <;> rfl

@[simp] theorem stored?_told (desk : Desk) (referrals : List Referral) (id : RecordId) :
    (desk.told referrals).stored? id = desk.stored? id := by
  cases id <;> rfl

end Desk

namespace DeskOp

/-- A step on a desk. Its answer comes with the desk that it leaves. -/
def apply (op : DeskOp) (carrier : CarrierAnswer) (desk : Desk) : op.Answer × Desk :=
  (op.perform.run carrier).run desk

variable {carrier : CarrierAnswer} {desk desk' : Desk} {record : Stored}

theorem apply_insert_ok (h : desk.insert record = .ok desk') :
    (insert record).apply carrier desk = ((.ok () : Except StoreError Unit), desk') := by
  cases record with
  | file f =>
    obtain ⟨files, hf, rfl⟩ := map_eq_ok.mp h
    show ((DeskM.keep _ (desk.files.insert f)).run carrier).run desk = _
    rw [hf]
    rfl
  | claim c =>
    obtain ⟨claims, hc, rfl⟩ := map_eq_ok.mp h
    show ((DeskM.keep _ (desk.claims.insert c)).run carrier).run desk = _
    rw [hc]
    rfl

theorem apply_insert_error {e : StoreError} (h : desk.insert record = .error e) :
    (insert record).apply carrier desk = ((.error e : Except StoreError Unit), desk) := by
  cases record with
  | file f =>
    show ((DeskM.keep _ (desk.files.insert f)).run carrier).run desk = _
    rw [map_eq_error.mp h]
    rfl
  | claim c =>
    show ((DeskM.keep _ (desk.claims.insert c)).run carrier).run desk = _
    rw [map_eq_error.mp h]
    rfl

theorem apply_update_ok {expected : UInt64} (h : desk.update record expected = .ok desk') :
    (update record expected).apply carrier desk = ((.ok () : Except StoreError Unit), desk') := by
  cases record with
  | file f =>
    obtain ⟨files, hf, rfl⟩ := map_eq_ok.mp h
    show ((DeskM.keep _ (desk.files.update f expected)).run carrier).run desk = _
    rw [hf]
    rfl
  | claim c =>
    obtain ⟨claims, hc, rfl⟩ := map_eq_ok.mp h
    show ((DeskM.keep _ (desk.claims.update c expected)).run carrier).run desk = _
    rw [hc]
    rfl

theorem apply_update_error {expected : UInt64} {e : StoreError}
    (h : desk.update record expected = .error e) :
    (update record expected).apply carrier desk = ((.error e : Except StoreError Unit), desk) := by
  cases record with
  | file f =>
    show ((DeskM.keep _ (desk.files.update f expected)).run carrier).run desk = _
    rw [map_eq_error.mp h]
    rfl
  | claim c =>
    show ((DeskM.keep _ (desk.claims.update c expected)).run carrier).run desk = _
    rw [map_eq_error.mp h]
    rfl

theorem apply_fetch (id : RecordId) :
    (fetch id).apply carrier desk =
      ((.ok (desk.stored? id) : Except StoreError (Option Stored)), desk) := by
  cases id <;> rfl

theorem apply_refer_ok (r : Referral) :
    (refer r).apply (.ok ()) desk = ((.ok () : CarrierAnswer), desk.told [r]) := rfl

theorem apply_refer_error (r : Referral) (e : CarrierError) :
    (refer r).apply (.error e) desk = ((.error e : CarrierAnswer), desk) := rfl

theorem apply_number : number.apply carrier desk = (desk.nextClaim, desk.drawNumber) := rfl

theorem apply_pending (limit : Nat) :
    (pending limit).apply carrier desk =
      ((.ok (pendingFiles limit desk.files.records) : Except StoreError (List UnderwritingFile)),
        desk) := rfl

end DeskOp

/-! ## Scripts -/

/-- The whole of a script, on a desk. The carrier gives the same answer to each referral of it, of
which there is one at most. -/
def Script.play (carrier : CarrierAnswer) (s : Script Reply) (desk : Desk) : Reply × Desk :=
  (s.run.run carrier).run desk

theorem Script.play_step (carrier : CarrierAnswer) (op : DeskOp) (next : op.Answer → Script Reply)
    (desk : Desk) : (step op next).play carrier desk =
      (next (op.apply carrier desk).1).play carrier (op.apply carrier desk).2 := rfl

namespace Call

open Script (play_step)

variable {config : EvaluationConfig Float} {c : Call} {a : Amendment} {carrier : CarrierAnswer}
  {desk desk' : Desk}

private theorem play_write_ok (h : desk.update a.changed a.source.revision = .ok desk') :
    (c.write a).play carrier desk = (a.reply, desk') := by
  rw [write, play_step, DeskOp.apply_update_ok h]
  rfl

/-- With a carrier that accepts, the write follows. It finds a desk on which the referral is logged
already. -/
theorem play_carry_ok (h : a.referral.isSome → carrier = .ok ()) :
    (c.carry a).play carrier desk = (c.write a).play carrier (desk.told a.referral.toList) := by
  unfold carry
  cases hr : a.referral with
  | none => simp [Desk.told]
  | some r =>
    obtain rfl := h (by simp [hr])
    rw [play_step, DeskOp.apply_refer_ok]
    rfl

/-- With a carrier that refuses, nothing follows. The desk is as it was before the referral. -/
theorem play_carry_error {r : Referral} {e : CarrierError} (hr : a.referral = some r)
    (hc : carrier = .error e) : (c.carry a).play carrier desk = (c.unreferred e, desk) := by
  subst hc
  simp only [carry, hr]
  rw [play_step, DeskOp.apply_refer_error]
  rfl

theorem play_reading (id : RecordId) :
    (c.reading config id).play carrier desk =
      match desk.stored? id with
      | none => (c.failed .notFound, desk)
      | some record =>
        match c.consider config record with
        | .ok a => (c.carry a).play carrier desk
        | .error reply => (reply, desk) := by
  rw [reading, play_step, DeskOp.apply_fetch]
  cases desk.stored? id with
  | none => rfl
  | some record =>
    simp only [proceed]
    cases c.consider config record <;> rfl

theorem play_insert_ok {record : Stored} {reply : Reply} (h : desk.insert record = .ok desk') :
    (Script.step (.insert record) (c.settle reply)).play carrier desk = (reply, desk') := by
  rw [play_step, DeskOp.apply_insert_ok h]
  rfl

theorem play_insert_error {record : Stored} {reply : Reply} {e : StoreError}
    (h : desk.insert record = .error e) :
    (Script.step (.insert record) (c.settle reply)).play carrier desk = (c.failed e, desk) := by
  rw [play_step, DeskOp.apply_insert_error h]
  rfl

end Call

/-! ## Visits -/

/-- A visit plays the script of its call. From here on only scripts need to be looked at. -/
theorem Visit.serve_eq_play (config : EvaluationConfig Float) (v : Visit) (desk : Desk) :
    v.serve config desk = (v.call.script config).play v.carrier desk := by
  rw [serve, ← Script.run_program, Call.program_eq_script]
  rfl

namespace Call

theorem isOk_failed (c : Call) (e : StoreError) : (c.failed e).isOk = false := by
  cases c <;> rfl

theorem isOk_unreferred (c : Call) (e : CarrierError) : (c.unreferred e).isOk = false := by
  cases c <;> rfl

theorem isOk_of_amends {config : EvaluationConfig Float} {c : Call} {a : Amendment}
    (h : Amends config c a) : a.reply.isOk = true := by
  cases h <;> rfl

/-- A call that is answered at once has failed or only reads. So an answer at once never stands for
a change. -/
private theorem consider_eq_error {config : EvaluationConfig Float} {c : Call} {record : Stored}
    {reply : Reply} (h : c.consider config record = .error reply) :
    c.isQuery = true ∨ reply.isOk = false := by
  -- A check that fails makes the reply a failure; what is left are the queries.
  cases c with
  | evaluate policyId =>
    cases record with
    | claim cl => cases h; exact .inr rfl
    | file f =>
      unfold consider at h
      dsimp only at h
      cases hd : f.evaluated config <;> rw [hd] at h <;> cases h
      exact .inr rfl
  | decide policyId proposal decidedBy now =>
    cases record with
    | claim cl => cases h; exact .inr rfl
    | file f =>
      unfold consider at h
      dsimp only at h
      cases hp : Decision.ofProposal proposal decidedBy now with
      | error report => rw [hp] at h; cases h; exact .inr rfl
      | ok d =>
        rw [hp] at h
        simp only at h
        cases hd : f.decided policyId d <;> rw [hd] at h <;> cases h
        exact .inr rfl
  | transition claimId request now =>
    cases record with
    | file f => cases h; exact .inr rfl
    | claim cl =>
      unfold consider at h
      dsimp only at h
      cases hd : cl.moved request now <;> rw [hd] at h <;> cases h
      exact .inr rfl
  | submit input now => cases h; exact .inr rfl
  | score request now => cases h; exact .inr rfl
  | openClaim request => cases h; exact .inr rfl
  | getFile policyId => exact .inl rfl
  | queue limit => exact .inl rfl
  | getClaim claimId => exact .inl rfl

end Call

/-- The scripts that calls have. There are five, and the steps of a call can be read off its shape.
-/
inductive Call.Shape (config : EvaluationConfig Float) (c : Call) : Script Reply → Prop
  /-- The call is refused before its first step. -/
  | refused (reply : Reply) : reply.isOk = false → Shape config c (.done reply)
  | listing (limit : Nat) : c = .queue limit →
    Shape config c
      (.step (.pending limit) fun result => .done (.files (Except.mapError .store result)))
  | opening (a : Assessment Float) : c.assessment? config = some a →
    Shape config c (c.opening (.ok a))
  | numbering (request : OpenClaim) : c = .openClaim request →
    Text.isBlank request.policyId = false → Shape config c (.step .number (numbered request))
  | reading (id : RecordId) : c.target? = some id → Shape config c (c.reading config id)

namespace Call

variable {config : EvaluationConfig Float} {c : Call}

private theorem opening_shape {result : Except Report (Assessment Float)}
    (h : c.assessment? config = result.toOption) : c.Shape config (c.opening result) := by
  cases result with
  | error report => exact .refused _ rfl
  | ok a => exact .opening a h

theorem script_shape (config : EvaluationConfig Float) (c : Call) :
    c.Shape config (c.script config) := by
  cases c with
  | submit input now => exact opening_shape rfl
  | score request now => exact opening_shape rfl
  | evaluate policyId => exact .reading _ rfl
  | decide policyId proposal decidedBy now =>
    unfold script
    dsimp only
    cases Decision.ofProposal proposal decidedBy now with
    | error report => exact .refused _ rfl
    | ok d => exact .reading _ rfl
  | getFile policyId => exact .reading _ rfl
  | queue limit => exact .listing limit rfl
  | openClaim request =>
    unfold script
    dsimp only
    by_cases hb : Text.isBlank request.policyId = true
    · rw [if_pos hb]
      exact .refused _ rfl
    · rw [if_neg hb]
      exact .numbering request rfl (by simpa using hb)
  | transition claimId request now => exact .reading _ rfl
  | getClaim claimId => exact .reading _ rfl

theorem script_of_assessment {a : Assessment Float} (h : c.assessment? config = some a) :
    c.script config = c.opening (.ok a) := by
  cases c with
  | submit input now => exact congrArg (opening _) (toOption_eq_some.mp h)
  | score request now => exact congrArg (opening _) (toOption_eq_some.mp h)
  | _ => cases h

private theorem script_of_openClaim {request : OpenClaim}
    (hb : Text.isBlank request.policyId = false) :
    (openClaim request).script config = .step .number (numbered request) := by
  unfold script
  simp [hb]

theorem script_of_amends {a : Amendment} (h : Amends config c a) {id : RecordId}
    (ht : c.target? = some id) : c.script config = c.reading config id := by
  cases h with
  | evaluation policyId f _ _ =>
    cases ht
    rfl
  | decision policyId proposal decidedBy now f d hp _ _ =>
    cases ht
    unfold script
    simp only [hp]
  | move claimId request now cl _ =>
    cases ht
    rfl

end Call

/-- The records that a call may open. Which of them is opened, if any, is up to the desk. -/
inductive Call.Opens (config : EvaluationConfig Float) (c : Call) : Stored → Prop
  | file (a : Assessment Float) : c.assessment? config = some a →
    Opens config c (.file (.ofAssessment a))
  | claim (request : OpenClaim) (n : UInt64) : c = .openClaim request →
    Opens config c (.claim (.ofRequest (claimNumber n) request))

/-- What a visit does to a desk, and its reply. The five cases exclude each other, and each says all
that the visit changes. -/
inductive Effect (config : EvaluationConfig Float) (v : Visit) (desk : Desk) : Reply → Desk → Prop
  /-- Nothing is changed. -/
  | kept (reply : Reply) : v.call.isQuery = true ∨ reply.isOk = false →
    Effect config v desk reply desk
  /-- The number of a claim is drawn in vain. -/
  | wasted (request : OpenClaim) (e : StoreError) : v.call = .openClaim request →
    Text.isBlank request.policyId = false →
    desk.drawNumber.insert (.claim (.ofRequest (claimNumber desk.nextClaim) request)) = .error e →
    Effect config v desk (.claim (.error (.store e))) desk.drawNumber
  | openedFile (a : Assessment Float) (desk' : Desk) : v.call.assessment? config = some a →
    desk.insert (.file (.ofAssessment a)) = .ok desk' →
    Effect config v desk (.file (.ok (.ofAssessment a))) desk'
  | openedClaim (request : OpenClaim) (desk' : Desk) : v.call = .openClaim request →
    Text.isBlank request.policyId = false →
    desk.drawNumber.insert (.claim (.ofRequest (claimNumber desk.nextClaim) request)) = .ok desk' →
    Effect config v desk (.claim (.ok (.ofRequest (claimNumber desk.nextClaim) request))) desk'
  | amended (a : Amendment) (desk' : Desk) : Amends config v.call a →
    v.call.target? = some a.source.id → desk.stored? a.source.id = some a.source →
    (a.referral.isSome → v.carrier = .ok ()) →
    (desk.told a.referral.toList).update a.changed a.source.revision = .ok desk' →
    Effect config v desk a.reply desk'

section

variable {config : EvaluationConfig Float} {v : Visit} {desk desk' : Desk}

theorem serve_openedFile {a : Assessment Float} (ha : v.call.assessment? config = some a)
    (hi : desk.insert (.file (.ofAssessment a)) = .ok desk') :
    v.serve config desk = (.file (.ok (.ofAssessment a)), desk') := by
  rw [Visit.serve_eq_play, Call.script_of_assessment ha]
  exact Call.play_insert_ok hi

theorem serve_openedClaim {request : OpenClaim} (hc : v.call = .openClaim request)
    (hb : Text.isBlank request.policyId = false)
    (hi : desk.drawNumber.insert (.claim (.ofRequest (claimNumber desk.nextClaim) request)) =
      .ok desk') :
    v.serve config desk =
      (.claim (.ok (.ofRequest (claimNumber desk.nextClaim) request)), desk') := by
  rw [Visit.serve_eq_play, hc, Call.script_of_openClaim hb, Script.play_step, DeskOp.apply_number,
    Call.numbered]
  exact Call.play_insert_ok hi

/-- A claim for no policy is not opened, and takes no number. It is refused before the supply of
numbers is asked. -/
theorem serve_blank {request : OpenClaim} (hc : v.call = .openClaim request)
    (hb : Text.isBlank request.policyId = true) :
    v.serve config desk = (.claim (.error .missingPolicy), desk) := by
  rw [Visit.serve_eq_play, hc, Call.script, if_pos hb]
  rfl

theorem serve_amended {a : Amendment} (ha : Amends config v.call a)
    (ht : v.call.target? = some a.source.id) (hs : desk.stored? a.source.id = some a.source)
    (hr : a.referral.isSome → v.carrier = .ok ())
    (hu : (desk.told a.referral.toList).update a.changed a.source.revision = .ok desk') :
    v.serve config desk = (a.reply, desk') := by
  rw [Visit.serve_eq_play, Call.script_of_amends ha ht, Call.play_reading, hs]
  simp only [Call.consider_eq_ok.mpr ⟨ha, rfl⟩]
  rw [Call.play_carry_ok hr]
  exact Call.play_write_ok hu

/-- What follows a record that was read. The record is amended if it can be and the carrier lets it;
else nothing is changed. -/
private theorem Effect.of_reading (hk : desk.Keyed) {id : RecordId}
    (hid : v.call.target? = some id) :
    Effect config v desk ((v.call.reading config id).play v.carrier desk).1
      ((v.call.reading config id).play v.carrier desk).2 := by
  rw [Call.play_reading]
  cases hs : desk.stored? id with
  | none => exact .kept _ (.inr (v.call.isOk_failed _))
  | some record =>
    simp only
    cases hc : v.call.consider config record with
    | error reply => exact .kept _ (Call.consider_eq_error hc)
    | ok a =>
      obtain ⟨ha, rfl⟩ := Call.consider_eq_ok.mp hc
      obtain rfl := hk _ _ hs
      simp only
      by_cases hr : a.referral.isSome → v.carrier = .ok ()
      · rw [Call.play_carry_ok hr]
        -- Telling the carrier stores nothing, so the record is still at the revision that was read.
        have hcurrent : (desk.told a.referral.toList).stored? a.changed.id = some a.source := by
          rw [ha.id_eq]
          exact hs
        obtain ⟨desk', hd⟩ := Desk.update_of_current hcurrent rfl
        rw [Call.play_write_ok hd]
        exact .amended a desk' ha hid hs hr hd
      · obtain ⟨hsome, hne⟩ := Classical.not_imp.mp hr
        obtain ⟨r, hr⟩ := Option.isSome_iff_exists.mp hsome
        cases he : v.carrier with
        | ok u => exact absurd he hne
        | error e =>
          rw [Call.play_carry_error hr rfl]
          exact .kept _ (.inr (v.call.isOk_unreferred e))

/-- **What a visit does.** Every theorem about sessions rests on it: a visit has one of the five
effects and no other. -/
theorem serve_effect (hk : desk.Keyed) :
    Effect config v desk (v.serve config desk).1 (v.serve config desk).2 := by
  rw [Visit.serve_eq_play]
  have hshape := Call.script_shape config v.call
  generalize v.call.script config = script at hshape
  -- One case for each shape; in those that insert, the desk accepts or refuses.
  cases hshape with
  | refused reply hfail => exact .kept reply (.inr hfail)
  | listing limit hc => exact .kept _ (.inl (by rw [hc]; rfl))
  | opening a ha =>
    rw [Call.opening]
    cases hi : desk.insert (.file (.ofAssessment a)) with
    | ok desk' =>
      rw [Call.play_insert_ok hi]
      exact .openedFile a desk' ha hi
    | error e =>
      rw [Call.play_insert_error hi]
      exact .kept _ (.inr (v.call.isOk_failed e))
  | numbering request hc hb =>
    rw [Script.play_step, DeskOp.apply_number]
    simp only [Call.numbered]
    cases hi : desk.drawNumber.insert
        (.claim (.ofRequest (claimNumber desk.nextClaim) request)) with
    | ok desk' =>
      rw [Call.play_insert_ok hi]
      exact .openedClaim request desk' hc hb hi
    | error e =>
      rw [Call.play_insert_error hi]
      exact .wasted request e hc hb hi
  | reading id hid => exact Effect.of_reading hk hid

end

end PolicyDesk
