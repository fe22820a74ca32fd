import PolicyDesk.Proofs.Desk.Offers
import PolicyDesk.Proofs.Underwriting.CarrierAccount
import PolicyDesk.Proofs.Wire.Severities

/-!
# Every severity shown is the band of the score beside it

- **Outcomes** (`EvaluationOutcome.Reflects`): an evaluation says of each factor, and of the whole,
  what the assessment says, and its severities are the bands of its scores.
- **Files** (`UnderwritingFile.Graded`): so do the assessment, the evaluation and the view of every
  file that is stored, and the JSON of the file and of the view (`Desk.Reached.file_graded`).
- **Assessments** (`Desk.Assessed`): once a policy has an assessment it has that one for good,
  whatever steps follow (`Advance.assessed`).
- **Referrals** (`Desk.Knows`): every referral that the carrier has accepted, and every one that the
  next call sends, is of an assessment that the desk has (`Desk.Reached.graded`).
-/

namespace PolicyDesk

/-! ## Outcomes -/

/-- The component is that of the factor. -/
structure ScoreComponent.Reflects (c : ScoreComponent Float) (f : Factor Float) : Prop where
  kind : c.factor = f.kind
  score : c.score = f.score.value
  weight : c.weight = f.weight.value
  banded : PolicyDesk.Banded c.severity c.score

/-- The outcome is that of the assessment, with one component for each factor, in order. -/
structure EvaluationOutcome.Reflects (o : EvaluationOutcome Float) (a : Assessment Float) :
    Prop where
  policyId : o.policyId = a.policyId
  riskScore : o.riskScore = a.riskScore.value
  banded : PolicyDesk.Banded o.severity o.riskScore
  components : List.Forall₂ ScoreComponent.Reflects o.components a.factors

/-- The components are computed of the factors one by one, and the severities are copied. -/
theorem EvaluationConfig.reflects (config : EvaluationConfig Float) (a : Assessment Float) :
    (config.evaluate a).Reflects a where
  policyId := rfl
  riskScore := rfl
  banded := a.banded
  components := by
    show List.Forall₂ ScoreComponent.Reflects (contributions a) a.factors
    rw [contributions, List.forall₂_map_left_iff, List.forall₂_same]
    exact fun f _ => ⟨rfl, rfl, rfl, f.banded⟩

private theorem EvaluationConfig.banded_evaluate (config : EvaluationConfig Float)
    (a : Assessment Float) :
    (config.evaluate a).Banded where
  whole := a.banded
  components c hc := by
    obtain ⟨f, -, rfl⟩ := List.mem_map.mp hc
    exact f.banded

/-! ## Files -/

/-- Every severity of the file, and of what is shown of it, is the band of the score beside it. What
is kept is compared with the score itself, and what is written with the number beside it. -/
structure UnderwritingFile.Graded (f : UnderwritingFile) : Prop where
  assessment : Banded f.assessment.severity f.assessment.riskScore.value
  factors : ∀ factor ∈ f.assessment.factors, Banded factor.severity factor.score.value
  evaluation : ∀ o, f.evaluation = some o → o.Reflects f.assessment
  view : f.statusView.severity = f.assessment.severity ∧
    f.statusView.riskScore = f.assessment.riskScore.value
  written : f.toJson.Banded
  viewWritten : f.statusView.toJson.Banded

/-- The evaluation of a stored file is that of its assessment. -/
theorem Desk.Reached.evaluation_eq {config : EvaluationConfig Float} {desk : Desk}
    (h : desk.Reached config) {k : PolicyId} {f : UnderwritingFile}
    (hf : desk.files.find? k = some f) {o : EvaluationOutcome Float} (ho : f.evaluation = some o) :
    o = config.evaluate f.assessment := by
  have hown : ∀ o, f.evaluation = some o → o = config.evaluate f.assessment :=
    h.file (P := fun f => ∀ o, f.evaluation = some o → o = config.evaluate f.assessment)
      (fun _ _ _ _ ho => nomatch ho) (fun _ _ _ ho => (Option.some.inj ho).symm)
      (fun _ _ _ _ _ _ hf => hf) hf
  exact hown o ho

theorem Desk.Reached.file_graded {config : EvaluationConfig Float} {desk : Desk}
    (h : desk.Reached config) {k : PolicyId} {f : UnderwritingFile}
    (hf : desk.files.find? k = some f) : f.Graded := by
  have hreflects (o : EvaluationOutcome Float) (ho : f.evaluation = some o) :
      o.Reflects f.assessment ∧ o.Banded := by
    rw [h.evaluation_eq hf ho]
    exact ⟨config.reflects f.assessment, config.banded_evaluate f.assessment⟩
  exact
    { assessment := f.assessment.banded
      factors := fun factor _ => factor.banded
      evaluation := fun o ho => (hreflects o ho).1
      view := ⟨rfl, rfl⟩
      written := UnderwritingFile.banded_toJson fun o ho => (hreflects o ho).2
      viewWritten := StatusView.banded_toJson f.assessment.banded }

/-! ## Assessments -/

/-- The desk has a file of the assessment. -/
def Desk.Assessed (desk : Desk) (a : Assessment Float) : Prop :=
  ∃ f, desk.files.find? a.policyId = some f ∧ f.assessment = a

/-- The referral is of an assessment that the desk has. -/
def Desk.Knows (desk : Desk) (r : Referral) : Prop := ∃ a, desk.Assessed a ∧ r.Describes a

/-- A policy has one file, and so one assessment. -/
theorem Desk.Assessed.unique {desk : Desk} {a b : Assessment Float} (ha : desk.Assessed a)
    (hb : desk.Assessed b) (hid : a.policyId = b.policyId) : a = b := by
  obtain ⟨f, hf, rfl⟩ := ha
  obtain ⟨g, hg, rfl⟩ := hb
  rw [hid, hg] at hf
  rw [Option.some.inj hf]

section

variable {config : EvaluationConfig Float} {v : Visit} {desk desk' : Desk} {own : List Event}
  {rest : Script Reply} {event : Option Event}

/-- A step keeps the assessments of the desk, if the call has read no others. An amendment keeps the
assessment of the file that it was made of, which may be older than the desk. -/
theorem Advance.assessed (h : Advance config v desk own rest desk' event)
    (hread : ∀ f, .read (.file f) ∈ own → desk.Assessed f.assessment) {a : Assessment Float}
    (ha : desk.Assessed a) : desk'.Assessed a := by
  obtain ⟨f, hf, rfl⟩ := ha
  have hs : desk.stored? (.file f.policyId) = some (.file f) := Desk.stored?_file_eq_some.mpr hf
  by_cases hwrote : ∃ record base, event = some (.wrote record base) ∧ record.id = .file f.policyId
  · obtain ⟨record, base, rfl, hid⟩ := hwrote
    have hstored : desk'.stored? (.file f.policyId) = some record := by
      cases h.happens with
      | wrote _ _ _ _ hstore => rw [hstore, if_pos hid.symm]
    obtain ⟨rfl, -⟩ | ⟨am, ham, hmem, rfl, -⟩ := h.wrote_cases
    · -- A record is opened under an id that is free.
      have hfree := h.happens.base_of_wrote
      rw [hid, hs] at hfree
      cases hfree
    · cases hsource : am.source with
      | claim c => rw [ham.id_eq, hsource] at hid; cases hid
      | file f₀ =>
        obtain ⟨f', hchanged, hsame⟩ := ham.assessment_kept hsource
        rw [ham.id_eq, hsource] at hid
        have heq : f₀.assessment = f.assessment :=
          (hread f₀ (hsource ▸ hmem)).unique ⟨f, hf, rfl⟩ (RecordId.file.inj hid)
        rw [hchanged] at hstored
        exact ⟨f', Desk.stored?_file_eq_some.mp hstored, hsame.trans heq⟩
  · have hother : desk'.stored? (.file f.policyId) = desk.stored? (.file f.policyId) :=
      h.happens.stored_of_other fun record base hevent hid => hwrote ⟨record, base, hevent, hid⟩
    exact ⟨f, Desk.stored?_file_eq_some.mp (hother.trans hs), rfl⟩

/-- A referral is of the file that the call has read. -/
theorem Amending.describes {a : Amendment} (ha : Amending config v.call a) {r : Referral}
    (hr : a.referral = some r) : ∃ f, a.source = .file f ∧ r.Describes f.assessment := by
  obtain ⟨f₀, f, hsource, -, -, hsame, -, -, hdescribes, -⟩ := ha.amends.referring ha.target hr
  exact ⟨f₀, hsource, hsame ▸ hdescribes⟩

/-- A referral that the carrier accepts is of a file that the call has read. -/
theorem Advance.logged_cases (h : Advance config v desk own rest desk' event) {r : Referral}
    (hr : r ∈ desk'.referrals) :
    r ∈ desk.referrals ∨ ∃ f, .read (.file f) ∈ own ∧ r.Describes f.assessment := by
  cases h with
  | openedFile a _ _ _ hi => exact .inl (Desk.referrals_of_insert hi ▸ hr)
  | openedClaim request _ _ _ _ hi => exact .inl (Desk.referrals_of_insert hi ▸ hr)
  | committed a _ _ _ _ hu => exact .inl (Desk.referrals_of_update hu ▸ hr)
  | told a r' hown ha hreferral _ =>
    obtain hold | hnew := List.mem_append.mp hr
    · exact .inl hold
    · obtain rfl := List.mem_singleton.mp hnew
      obtain ⟨f, hsource, hdescribes⟩ := ha.describes hreferral
      exact .inr ⟨f, by simp [hown, hsource], hdescribes⟩
  | _ => exact .inl hr

end

namespace Floor

/-- What the calls have read, and what the carrier has accepted, is of assessments that the desk
has. -/
structure Known (floor : Floor) : Prop where
  read : ∀ t f, .read (.file f) ∈ floor.own t → floor.desk.Assessed f.assessment
  logged : ∀ r ∈ floor.desk.referrals, floor.desk.Knows r

theorem Known.after {config : EvaluationConfig Float} {floor : Floor} {t : Nat} {v : Visit}
    {rest : Script Reply} {desk : Desk} {event : Option Event} (h : floor.Known)
    (ha : Advance config v floor.desk (floor.own t) rest desk event) :
    (floor.after t v rest desk event).Known where
  read t' f hread := by
    -- What other calls have read stays known; what the call reads in this step is on the desk.
    by_cases hne : t' = t
    · subst hne
      rw [own_after_self, List.mem_append, Option.mem_toList] at hread
      refine ha.assessed (h.read t') ?_
      obtain hread | rfl := hread
      · exact h.read t' f hread
      · exact ⟨f, Desk.stored?_file_eq_some.mp ha.happens.there_of_read, rfl⟩
    · rw [own_after_of_ne v hne] at hread
      exact ha.assessed (h.read t) (h.read t' f hread)
  logged r hr := by
    have hkept (a : Assessment Float) (hassessed : floor.desk.Assessed a) : desk.Assessed a :=
      ha.assessed (h.read t) hassessed
    obtain hold | ⟨f, hread, hdescribes⟩ := ha.logged_cases hr
    · obtain ⟨a, hassessed, hdescribes⟩ := h.logged r hold
      exact ⟨a, hkept a hassessed, hdescribes⟩
    · exact ⟨f.assessment, hkept _ (h.read t f hread), hdescribes⟩

theorem known {config : EvaluationConfig Float} (moves : List Move) : (run config moves).Known := by
  refine induction (P := Known) ?_ (fun floor v _ h => ⟨h.read, h.logged⟩) ?_ moves
  · exact ⟨fun t f hread => by simp [empty, own, eventsOf] at hread, fun r hr => nomatch hr⟩
  · exact fun floor t task rest desk event _ h _ _ ha => h.after ha

end Floor

/-! ## Desks -/

/-- Every severity that the desk shows, or tells the carrier, is the band of the score beside it. -/
structure Desk.Graded (config : EvaluationConfig Float) (desk : Desk) : Prop where
  files : ∀ k f, desk.files.find? k = some f → f.Graded
  logged : ∀ r ∈ desk.referrals, desk.Knows r ∧ r.toJson.Banded
  /-- Whatever call comes next, and whether or not the carrier accepts. -/
  sent : ∀ v, ∀ r ∈ Visit.asked config v desk, desk.Knows r ∧ r.toJson.Banded

theorem Desk.Knows.banded_toJson {desk : Desk} {r : Referral} (h : desk.Knows r) :
    r.toJson.Banded := by
  obtain ⟨a, -, -, hscore, hseverity⟩ := h
  exact Referral.banded_toJson (hscore ▸ hseverity ▸ a.banded)

private theorem Desk.knows_of_asked {config : EvaluationConfig Float} {desk : Desk}
    (hk : desk.Keyed)
    {v : Visit} {r : Referral} (hr : r ∈ v.asked config desk) : desk.Knows r := by
  obtain hnone | ⟨a, r', ha, ht, hs, hr', hone⟩ := asked_cases config v hk
  · simp [hnone] at hr
  · obtain rfl : r = r' := by simpa [hone] using hr
    obtain ⟨f, hsource, hdescribes⟩ := Amending.describes ⟨ha, ht⟩ hr'
    rw [hsource] at hs
    exact ⟨f.assessment, ⟨f, Desk.stored?_file_eq_some.mp hs, rfl⟩, hdescribes⟩

private theorem Desk.Reached.knows_of_logged {config : EvaluationConfig Float} {desk : Desk}
    (h : desk.Reached config) {r : Referral} (hr : r ∈ desk.referrals) : desk.Knows r := by
  cases h with
  | stepped moves => exact (Floor.known moves).logged r hr
  | served visits =>
    obtain ⟨f, hf, hdescribes⟩ := Session.described visits hr
    exact ⟨f.assessment, ⟨f, hdescribes.1 ▸ hf, rfl⟩, hdescribes⟩

/-- **Bands.** On every desk that is reached, every severity shown is the band of the score beside
it. An interleaving may have read a file that has changed since, but its assessment has not. -/
theorem Desk.Reached.graded {config : EvaluationConfig Float} {desk : Desk}
    (h : desk.Reached config) : desk.Graded config where
  files _ _ hf := h.file_graded hf
  logged _ hr :=
    have hknows := h.knows_of_logged hr
    ⟨hknows, hknows.banded_toJson⟩
  sent _ _ hr :=
    have hknows := Desk.knows_of_asked h.keyed hr
    ⟨hknows, hknows.banded_toJson⟩

/-- A file at the bound between two bands is evaluated and referred by an underwriter. -/
theorem Desk.Reached.graded_of_referral :
    let visits : List Visit :=
      [⟨.submit ⟨"pol-1", 80, some "medium", [⟨"CLAIMS_HISTORY", 100, 0.5, none⟩,
            ⟨"LOCATION_RISK", 60, 0.5, some "LOW"⟩], "ana", none⟩ ⟨0, 0⟩, .ok ()⟩,
       ⟨.evaluate "pol-1", .ok ()⟩,
       ⟨.decide "pol-1" ⟨"REFERRED_TO_CARRIER", none, none⟩ "ana" ⟨60, 0⟩, .ok ()⟩]
    let desk := (Session.run .standard visits).desk
    ∃ f, desk.files.find? "pol-1" = some f ∧ f.status = .referredToCarrier ∧
      f.assessment.severity = .medium ∧ f.evaluation.isSome ∧ desk.referrals.length = 1 ∧
      desk.Graded .standard := by
  intro visits desk
  have hfound : (desk.files.find? "pol-1").map
      (fun f => (f.status, f.assessment.severity, f.evaluation.isSome)) =
      some (.referredToCarrier, .medium, true) := by
    decide +kernel
  have hlogged : desk.referrals.length = 1 := by decide +kernel
  obtain ⟨f, hf, heq⟩ := Option.map_eq_some_iff.mp hfound
  obtain ⟨hstatus, hseverity, hevaluated⟩ : f.status = .referredToCarrier ∧
      f.assessment.severity = .medium ∧ f.evaluation.isSome = true := by
    simpa using heq
  have hreached : desk.Reached .standard := .served visits
  exact ⟨f, hf, hstatus, hseverity, hevaluated, hlogged, hreached.graded⟩

end PolicyDesk
