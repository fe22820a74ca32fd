import PolicyDesk.Proofs.Assessment.Admissible

/-!
# The report on a submission

What a report lists, and in which order (`AssessmentInput.reported`): the fields at fault in the
submission itself (`AssessmentInput.headFields`), then what is wrong with each factor in turn
(`factorReport`), then the weights of a complete set (`AssessmentInput.lastFields`).

- **Factors alone** (`FactorInput.read_eq`): within a submission a factor is read as it is alone,
  and its violations are named after its place (`Violation.under`).
- **Factors together** (`FactorInput.faults`): a factor that is accepted alone is a duplicate when
  one that was submitted before it and is accepted alone has its kind.
- **The pass** (`FactorScan.Gathers`): what the pass over the factors has gathered after any number
  of them, kept by each step (`FactorScan.Gathers.step`).
-/

namespace PolicyDesk

open Text (Names)

variable {α : Type} [Quantity α]

/-! ## Factors alone -/

/-- The violation of a record that stands at a place of another. Its message stays as it is. -/
def Violation.under (place : String) (v : Violation) : Violation := ⟨place ++ v.field, v.message⟩

private theorem Report.note_append {ε β : Type} (place field : String) (message : ε → String)
    (r : Except ε β) :
    note (place ++ field) message r = (note field message r).map (.under place) := by
  cases r <;> rfl

namespace FactorInput

private theorem read_place (place : String) (raw : FactorInput α) :
    raw.read place = ((raw.read "").1.map (.under place), (raw.read "").2) := by
  simp only [read, String.empty_append, Report.note_append, List.map_append]

/-- **A factor at a place.** It is read as it is alone. Where a factor stands shows in the fields of
its violations and nowhere else. -/
theorem read_eq (place : String) (raw : FactorInput α) :
    raw.read place =
      match raw.toFactor with
      | .ok f => ([], some f)
      | .error report => (report.violations.map (.under place), none) := by
  rw [read_place]
  obtain ⟨f, -, hread⟩ | ⟨found, -, -, hread⟩ := raw.read_cases ""
  · simp [toFactor, hread]
  · simp [toFactor, hread]

theorem makes_of_toFactor {raw : FactorInput α} {f : Factor α} (h : raw.toFactor = .ok f) :
    raw.Makes f := by
  obtain ⟨g, hg, hread⟩ | ⟨found, -, -, hread⟩ := raw.read_cases ""
  · rw [toFactor, hread] at h
    cases h
    exact hg
  · rw [toFactor, hread] at h
    cases h

end FactorInput

/-! ## Factors together -/

/-- The submitted factors that are accepted alone, in order. Duplicates are among them. -/
def acceptedFactors (raws : List (FactorInput α)) : List (Factor α) :=
  raws.filterMap fun raw => raw.toFactor.toOption

def acceptedKinds (raws : List (FactorInput α)) : List FactorType :=
  (acceptedFactors raws).map (·.kind)

/-- What is reported of the factor at an index, after the factors submitted before it. A factor that
is refused alone is compared with none. -/
def FactorInput.faults (earlier : List (FactorInput α)) (index : Nat) (raw : FactorInput α) :
    List Violation :=
  match raw.toFactor with
  | .error report => report.violations.map (.under (FactorScan.lead index))
  | .ok f =>
    if f.kind ∈ acceptedKinds earlier then
      [⟨FactorScan.lead index ++ "type", "duplicate risk factor " ++ f.kind.code⟩]
    else []

/-- What is reported of all factors, in the order of submission. What is said of a factor depends on
those before it and on no later one. -/
def factorReport (raws : List (FactorInput α)) : List Violation :=
  raws.zipIdx.flatMap fun (raw, index) => raw.faults (raws.take index) index

section

variable {raws : List (FactorInput α)} {raw : FactorInput α} {f : Factor α}

private theorem acceptedFactors_append_ok (h : raw.toFactor = .ok f) :
    acceptedFactors (raws ++ [raw]) = acceptedFactors raws ++ [f] := by
  simp [acceptedFactors, h, Except.toOption]

private theorem acceptedFactors_append_error {report : Report} (h : raw.toFactor = .error report) :
    acceptedFactors (raws ++ [raw]) = acceptedFactors raws := by
  simp [acceptedFactors, h, Except.toOption]

theorem factorReport_append_one (raws : List (FactorInput α)) (raw : FactorInput α) :
    factorReport (raws ++ [raw]) = factorReport raws ++ raw.faults raws raws.length := by
  have hearlier : ∀ entry ∈ raws.zipIdx,
      entry.1.faults ((raws ++ [raw]).take entry.2) entry.2 =
        entry.1.faults (raws.take entry.2) entry.2 := by
    intro entry hentry
    have hlt : entry.2 < raws.length := by
      simpa using (List.mem_zipIdx hentry).2.1
    rw [List.take_append_of_le_length hlt.le]
  rw [factorReport, List.zipIdx_append, List.flatMap_append, List.flatMap_congr hearlier]
  simp [factorReport]

/-- When every factor is accepted alone, they are made in order. None is left out then. -/
theorem makes_acceptedFactors (h : ∀ raw ∈ raws, raw.toFactor.isOk = true) :
    List.Forall₂ FactorInput.Makes raws (acceptedFactors raws) := by
  induction raws with
  | nil => exact .nil
  | cons raw raws ih =>
    rw [List.forall_mem_cons] at h
    cases hf : raw.toFactor with
    | error report =>
      rw [hf] at h
      cases h.1
    | ok f =>
      have hcons : acceptedFactors (raw :: raws) = f :: acceptedFactors raws := by
        simp [acceptedFactors, hf, Except.toOption]
      rw [hcons]
      exact .cons (FactorInput.makes_of_toFactor hf) (ih h.2)

private theorem length_acceptedFactors_iff :
    (acceptedFactors raws).length = raws.length ↔ ∀ raw ∈ raws, raw.toFactor.isOk = true := by
  rw [acceptedFactors, List.filterMap_length_eq_length]
  refine forall₂_congr fun raw _ => ?_
  cases raw.toFactor <;> simp [Except.toOption, Except.isOk, Except.toBool]

end

/-! ## The pass -/

namespace FactorScan

private theorem step_eq (scan : FactorScan α) (raw : FactorInput α) (index : Nat) :
    step scan (raw, index) =
      match raw.toFactor with
      | .error report =>
        { scan with violations := scan.violations ++ report.violations.map (.under (lead index)) }
      | .ok f => if f.kind ∈ scan.seen then
          { scan with
            violations := scan.violations ++
              [⟨lead index ++ "type", "duplicate risk factor " ++ f.kind.code⟩]
            factors := scan.factors ++ [f] }
        else scan.accept f := by
  unfold step
  dsimp only
  rw [raw.read_eq (lead index)]
  cases raw.toFactor with
  | error report => rfl
  | ok f => by_cases hseen : f.kind ∈ scan.seen <;> simp [hseen, accept]

/-- What the pass has gathered of the factors so far. Of a kind that came up twice the scan keeps
one mention, so only membership is said of `seen`. -/
structure Gathers (scan : FactorScan α) (raws : List (FactorInput α)) : Prop where
  violations : scan.violations = factorReport raws
  factors : scan.factors = acceptedFactors raws
  seen : ∀ t, t ∈ scan.seen ↔ t ∈ acceptedKinds raws
  nodup : scan.seen.Nodup

theorem Gathers.start : (start : FactorScan α).Gathers [] :=
  ⟨rfl, rfl, fun _ => Iff.rfl, List.nodup_nil⟩

/-- The pass takes in the next factor. Its place is the number of the factors before it. -/
theorem Gathers.step {scan : FactorScan α} {raws : List (FactorInput α)} (h : scan.Gathers raws)
    (raw : FactorInput α) : (scan.step (raw, raws.length)).Gathers (raws ++ [raw]) := by
  have hreport := factorReport_append_one raws raw
  rw [step_eq]
  unfold FactorInput.faults at hreport
  cases hf : raw.toFactor with
  | error report =>
    have hfactors : acceptedFactors (raws ++ [raw]) = acceptedFactors raws :=
      acceptedFactors_append_error hf
    rw [hf] at hreport
    dsimp only at hreport ⊢
    exact ⟨by rw [hreport, h.violations], by rw [hfactors, h.factors],
      fun t => by rw [acceptedKinds, hfactors, h.seen, acceptedKinds], h.nodup⟩
  | ok f =>
    have hfactors : acceptedFactors (raws ++ [raw]) = acceptedFactors raws ++ [f] :=
      acceptedFactors_append_ok hf
    have hkinds : acceptedKinds (raws ++ [raw]) = acceptedKinds raws ++ [f.kind] := by
      rw [acceptedKinds, hfactors, List.map_append, acceptedKinds, List.map_singleton]
    rw [hf] at hreport
    dsimp only at hreport ⊢
    simp only [← h.seen] at hreport
    -- A duplicate is reported and kept; only its kind is not noted a second time.
    by_cases hseen : f.kind ∈ scan.seen
    · rw [if_pos hseen] at hreport ⊢
      refine ⟨by rw [hreport, h.violations], by rw [hfactors, h.factors], fun t => ?_, h.nodup⟩
      rw [hkinds, List.mem_append, ← h.seen, List.mem_singleton]
      exact ⟨.inl, fun ht => ht.elim id fun heq => heq ▸ hseen⟩
    · rw [if_neg hseen] at hreport ⊢
      refine ⟨by rw [hreport, List.append_nil]; exact h.violations, ?_, fun t => ?_, ?_⟩
      · rw [hfactors, ← h.factors]
        rfl
      · rw [hkinds, List.mem_append, ← h.seen]
        exact List.mem_append
      · simpa [accept, List.nodup_append] using
          ⟨h.nodup, fun t ht heq => hseen (heq ▸ ht)⟩

theorem ofInputs_append_one (raws : List (FactorInput α)) (raw : FactorInput α) :
    ofInputs (raws ++ [raw]) = (ofInputs raws).step (raw, raws.length) := by
  simp [ofInputs, List.zipIdx_append]

/-- **The pass.** What it gathers of any factors. The factors grow at the end, as the pass takes
them in. -/
theorem gathers_ofInputs (raws : List (FactorInput α)) : (ofInputs raws).Gathers raws := by
  induction raws using List.reverseRecOn with
  | nil => exact .start
  | append_singleton raws raw ih =>
    rw [ofInputs_append_one]
    exact ih.step raw

end FactorScan

/-! ## The report -/

namespace AssessmentInput

/-- A severity is declared that is none, or that is not the band of a score in range. A severity
beside a score out of range is wrong only when it is none at all. -/
def Misdeclared (declared : Option String) (x : α) : Prop :=
  ∃ raw ∈ declared, (∀ s ∈ Severity.all, ¬ Names raw s.code) ∨
    Score.InRange x ∧ ¬ Names raw (Severity.band x).code

instance (declared : Option String) (x : α) : Decidable (Misdeclared declared x) :=
  inferInstanceAs (Decidable (∃ raw ∈ declared, _))

/-- The fields at fault in a submission, before those of its factors. They come in the order in
which the check looks at them. -/
def headFields (input : AssessmentInput α) : List String :=
  (if Text.trim input.policyId = "" then ["policy_id"] else []) ++
  (if Text.trim input.assessedBy = "" then ["assessed_by"] else []) ++
  (if Score.InRange input.riskScore then [] else ["risk_score"]) ++
  (if Misdeclared input.severity input.riskScore then ["severity"] else []) ++
  (if input.factors = [] then ["factors"] else [])

/-- Every factor is accepted alone, and all four kinds are there. Duplicates do not stand in its
way. -/
def Complete (input : AssessmentInput α) : Prop :=
  (∀ raw ∈ input.factors, raw.toFactor.isOk = true) ∧
    ∀ t ∈ FactorType.all, t ∈ acceptedKinds input.factors

instance (input : AssessmentInput α) : Decidable input.Complete :=
  inferInstanceAs (Decidable (_ ∧ _))

/-- The fields at fault after those of the factors: the weights of a complete set. An incomplete set
is scored in proportion and need not add up. -/
def lastFields (input : AssessmentInput α) : List String :=
  if input.Complete ∧ Quantity.differBy weightTolerance
      (Quantity.total (input.factors.map (·.weight))) (Quantity.whole 1) then ["factors"] else []

theorem misdeclared_iff {declared : Option String} {x : α} :
    Misdeclared declared x ↔
      (checkSeverity declared (Score.ofValue x).toOption).isOk = false := by
  cases declared with
  | none => exact iff_of_false (fun ⟨_, hraw, _⟩ => nomatch hraw) (fun h => nomatch h)
  | some raw =>
    have hmis : Misdeclared (some raw) x ↔ (∀ s ∈ Severity.all, ¬ Names raw s.code) ∨
        Score.InRange x ∧ ¬ Names raw (Severity.band x).code := by
      simp [Misdeclared]
    rw [hmis]
    simp only [← Severity.parse_eq_ok]
    unfold checkSeverity
    dsimp only
    -- A text that names no severity is wrong for any number, and the other texts need a score to be
    -- wrong.
    cases hparse : Severity.parse raw with
    | error e => exact iff_of_true (.inl fun s _ h => nomatch h) rfl
    | ok s =>
      have hnamed : ¬ ∀ t ∈ Severity.all, ¬ (Except.ok s : Except UnknownSeverity _) = .ok t :=
        fun h => h s s.mem_all rfl
      cases hscore : Score.ofValue x with
      | error e =>
        have hrange := (Score.ofValue_eq_error_iff.mp hscore).1
        exact iff_of_false (fun h => h.elim hnamed fun h => hrange h.1) (fun h => nomatch h)
      | ok score =>
        obtain rfl := Score.value_of_ofValue hscore
        dsimp only [Except.toOption]
        rw [Score.severity_eq_band]
        by_cases hs : s = Severity.band score.value
        · rw [if_pos hs]
          exact iff_of_false (fun h => h.elim hnamed fun h => h.2 (congrArg _ hs))
            (fun h => nomatch h)
        · rw [if_neg hs]
          exact iff_of_true (.inr ⟨score.inRange, fun h => hs (Except.ok.inj h)⟩) rfl

/-! ### Fields -/

theorem fields_requireText (field message text : String) :
    (requireText field message text).map (·.field) =
      if Text.trim text = "" then [field] else [] := by
  simp only [requireText, Text.isBlank_iff]
  split <;> rfl

theorem fields_note {ε β : Type} (field : String) (message : ε → String) (r : Except ε β) :
    (Report.note field message r).map (·.field) = if r.isOk then [] else [field] := by
  cases r <;> rfl

theorem fields_score (x : α) :
    (Report.note "risk_score" (·.message) (Score.ofValue x)).map (·.field) =
      if Score.InRange x then [] else ["risk_score"] := by
  rw [fields_note, Score.ofValue]
  split <;> rfl

theorem fields_severity (declared : Option String) (x : α) :
    (Report.note "severity" id (checkSeverity declared (Score.ofValue x).toOption)).map (·.field) =
      if Misdeclared declared x then ["severity"] else [] := by
  rw [fields_note]
  simp only [misdeclared_iff]
  cases (checkSeverity declared (Score.ofValue x).toOption).isOk <;> rfl

theorem fields_checkTotalWeight (factors : List (Factor α)) :
    (checkTotalWeight factors).map (·.field) =
      if Quantity.differBy weightTolerance (totalWeight factors) (Quantity.whole 1) then ["factors"]
      else [] := by
  unfold checkTotalWeight
  dsimp only
  split <;> rfl

/-- The violations of a report, rule by rule. Every rule is looked at, so the list is the same
whether the submission is accepted or not. -/
theorem violations_validate (input : AssessmentInput α) :
    input.validate.violations =
      (requireText "policy_id" "policy id is required" input.policyId ++
        requireText "assessed_by" "assessor is required" input.assessedBy ++
        Report.note "risk_score" (·.message) (Score.ofValue input.riskScore) ++
        Report.note "severity" id
          (checkSeverity input.severity (Score.ofValue input.riskScore).toOption) ++
        (if input.factors.isEmpty then
          [⟨"factors", "a complete assessment needs at least one risk factor"⟩] else [])) ++
      (FactorScan.ofInputs input.factors).violations ++
      (if (FactorScan.ofInputs input.factors).factors.length = input.factors.length ∧
          (FactorScan.ofInputs input.factors).seen.length = FactorType.all.length then
        checkTotalWeight (FactorScan.ofInputs input.factors).factors else []) := by
  unfold validate examine
  dsimp only
  -- Without a score the report is the list itself; with one it is clean exactly when the list is
  -- empty.
  cases Score.ofValue input.riskScore with
  | error e => rfl
  | ok s =>
    split
    · rename_i hchecked
      split at hchecked
      · rename_i hfound
        exact hfound.symm
      · cases hchecked
    · rename_i hchecked
      split at hchecked <;> cases hchecked
      rfl

private theorem complete_iff (input : AssessmentInput α) :
    ((FactorScan.ofInputs input.factors).factors.length = input.factors.length ∧
        (FactorScan.ofInputs input.factors).seen.length = FactorType.all.length) ↔
      input.Complete := by
  have h := FactorScan.gathers_ofInputs input.factors
  rw [h.factors, length_acceptedFactors_iff, length_kinds_iff h.nodup]
  refine and_congr_right fun _ => ?_
  simp only [h.seen]
  exact ⟨fun hall t _ => hall t, fun hall t => hall t t.mem_all⟩

theorem fields_last (input : AssessmentInput α) :
    (if input.Complete then checkTotalWeight (acceptedFactors input.factors) else []).map
      (·.field) = input.lastFields := by
  unfold lastFields
  by_cases hcomplete : input.Complete
  · have hweights := totalWeight_of_makes (makes_acceptedFactors hcomplete.1)
    rw [if_pos hcomplete, fields_checkTotalWeight, hweights]
    simp only [hcomplete, true_and]
  · rw [if_neg hcomplete, if_neg fun h => hcomplete h.1]
    rfl

/-- **The report.** It lists the fields at fault in the submission itself, what is wrong with each
of its factors, alone or after the others, and the weights of a complete set. -/
theorem reported (input : AssessmentInput α) :
    ∃ head last, input.validate.violations = head ++ factorReport input.factors ++ last ∧
      head.map (·.field) = input.headFields ∧ last.map (·.field) = input.lastFields := by
  have hgathers := FactorScan.gathers_ofInputs input.factors
  refine ⟨_, _, hgathers.violations ▸ violations_validate input, ?_, ?_⟩
  · simp only [List.map_append, fields_requireText, fields_score, fields_severity, headFields,
      List.isEmpty_iff, apply_ite (List.map _), List.map_cons, List.map_nil]
  · simp only [complete_iff]
    rw [hgathers.factors]
    exact input.fields_last

/-- A bad score silences the severity beside it, and a refused factor is no duplicate. -/
example :
    let input : AssessmentInput Float :=
      { policyId := " ", riskScore := 101, severity := some "low", assessedBy := "ana"
        factors := [⟨"LOCATION_RISK", -1, 0.5, some "HIGH"⟩, ⟨" location_risk", 20, 0.5, none⟩,
          ⟨"LOCATION_RISK", 85, 0.5, some "MEDIUM"⟩, ⟨"LOCATION_RISK", 85, 0.5, none⟩]
        assessmentDate := none }
    input.validate.fields = ["policy_id", "risk_score", "factors[0].score", "factors[2].severity",
      "factors[3].type"] := by
  decide +kernel

end AssessmentInput

end PolicyDesk
