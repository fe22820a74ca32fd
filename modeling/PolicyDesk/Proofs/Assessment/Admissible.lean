import Mathlib.Data.List.Perm.Subperm
import PolicyDesk.Evaluation
import PolicyDesk.Proofs.Assessment.Factors

/-!
# Submitted assessments

Which submissions are accepted, what an accepted one is kept as, and what comes of submitting that
again.
-/

namespace PolicyDesk

/-! ## Which submissions are accepted

- **Makes** (`AssessmentInput.Makes`): the score and the factors that a submission stands for. They
  are what the check returns, and a check that fails reports at least one violation
  (`AssessmentInput.examine_eq_ok`, `AssessmentInput.violations_of_examine`).
- **Admissible** (`AssessmentInput.Admissible`): the rules of a submission, in terms of its own
  fields. They hold exactly when the submission stands for something
  (`AssessmentInput.exists_makes_iff`).
- **Becomes** (`AssessmentInput.Becomes`): the assessment that an accepted submission is kept as.
- **The check** (`AssessmentInput.build_accepts`): it accepts the admissible submissions and no
  others. -/

section

open Text (Names)

variable {α : Type} [Quantity α]

/-! ### Lists of submitted factors -/

section Lists

variable {raws : List (FactorInput α)} {fs : List (Factor α)}

/-- A list stands for another one exactly when each of its elements stands for something. -/
theorem exists_forall₂_iff {β γ : Type} {R : β → γ → Prop} {l : List β} :
    (∃ l', List.Forall₂ R l l') ↔ ∀ b ∈ l, ∃ c, R b c := by
  induction l with
  | nil => exact iff_of_true ⟨[], .nil⟩ (fun b h => nomatch h)
  | cons b l ih =>
    rw [List.forall_mem_cons, ← ih]
    constructor
    · rintro ⟨_, _ | ⟨hc, hl⟩⟩
      exact ⟨⟨_, hc⟩, _, hl⟩
    · rintro ⟨⟨c, hc⟩, l', hl⟩
      exact ⟨c :: l', .cons hc hl⟩

private theorem exists_makes_list :
    (∃ fs, List.Forall₂ FactorInput.Makes raws fs) ↔ ∀ raw ∈ raws, raw.Admissible := by
  simp only [exists_forall₂_iff, FactorInput.makes_iff]

/-- Two submitted factors are of different kinds. A text that names no kind differs from every other
one here. -/
def FactorInput.OtherKind (raw raw' : FactorInput α) : Prop :=
  ∀ t : FactorType, Names raw.kind t.code → ¬ Names raw'.kind t.code

theorem FactorInput.Makes.names_iff {raw : FactorInput α} {f : Factor α} (h : raw.Makes f)
    {t : FactorType} : Names raw.kind t.code ↔ t = f.kind :=
  ⟨fun ht => FactorType.eq_of_sameCode t f.kind (ht.sameCode h.kind), fun ht => ht ▸ h.kind⟩

private theorem names_iff_mem_kinds (h : List.Forall₂ FactorInput.Makes raws fs) {t : FactorType} :
    (∃ raw ∈ raws, Names raw.kind t.code) ↔ t ∈ fs.map (·.kind) := by
  induction h with
  | nil => simp
  | cons hf _ ih => simp [hf.names_iff, ih]

private theorem pairwise_otherKind_iff (h : List.Forall₂ FactorInput.Makes raws fs) :
    raws.Pairwise FactorInput.OtherKind ↔ (fs.map (·.kind)).Nodup := by
  induction h with
  | nil => simp
  | @cons raw f raws fs hf hfs ih =>
    have hhead : (∀ raw' ∈ raws, raw.OtherKind raw') ↔ f.kind ∉ fs.map (·.kind) := by
      rw [← names_iff_mem_kinds hfs]
      simp [FactorInput.OtherKind, hf.names_iff]
    rw [List.pairwise_cons, List.map_cons, List.nodup_cons, hhead, ih]

theorem totalWeight_of_makes (h : List.Forall₂ FactorInput.Makes raws fs) :
    totalWeight fs = Quantity.total (raws.map (·.weight)) := by
  have hweights : fs.map (·.weight.value) = raws.map (·.weight) := by
    induction h with
    | nil => rfl
    | cons hf _ ih => rw [List.map_cons, List.map_cons, hf.weight, ih]
  rw [totalWeight, hweights]

end Lists

/-- Kinds that are all different are as many as there are kinds when each of them occurs. The check
counts the kinds that it has seen; the rule speaks of each kind by itself. -/
theorem length_kinds_iff {kinds : List FactorType} (h : kinds.Nodup) :
    kinds.length = FactorType.all.length ↔ ∀ t, t ∈ kinds := by
  have hsub : kinds.Subperm FactorType.all := List.subperm_of_subset h fun t _ => t.mem_all
  -- A list of different kinds is a part of the list of all, so it is as long exactly when it is
  -- all.
  constructor
  · exact fun hlen t => (hsub.perm_of_length_le hlen.ge).mem_iff.mpr t.mem_all
  · intro hall
    have hsup : FactorType.all.Subperm kinds := List.subperm_of_subset (by decide) fun t _ => hall t
    exact hsub.length_le.antisymm hsup.length_le

@[simp] theorem requireText_eq_nil {field message text : String} :
    requireText field message text = [] ↔ Text.isBlank text = false := by
  cases h : Text.isBlank text <;> simp [requireText, h]

@[simp] theorem checkTotalWeight_eq_nil {factors : List (Factor α)} :
    checkTotalWeight factors = [] ↔
      ¬ Quantity.differBy weightTolerance (totalWeight factors) (Quantity.whole 1) := by
  unfold checkTotalWeight
  dsimp only
  split <;> simp [*]

namespace AssessmentInput

/-- The score and the factors that a submission stands for. The parts are typed, so the rules on
numbers and codes are kept by their types. -/
structure Makes (input : AssessmentInput α) (s : Score α) (fs : List (Factor α)) : Prop where
  policy : Text.isBlank input.policyId = false
  assessor : Text.isBlank input.assessedBy = false
  score : s.value = input.riskScore
  severity : Declares input.severity s.severity
  someFactor : input.factors ≠ []
  factors : List.Forall₂ FactorInput.Makes input.factors fs
  kinds : (fs.map (·.kind)).Nodup
  weights : fs.length = FactorType.all.length →
    ¬ Quantity.differBy weightTolerance (totalWeight fs) (Quantity.whole 1)

private theorem examine_of_makes {input : AssessmentInput α} {s : Score α} {fs : List (Factor α)}
    (h : input.Makes s fs) : input.examine = .ok (s, fs) := by
  have hscore := Score.ofValue_eq_ok.mpr h.score
  have hseverity := checkSeverity_eq_ok.mpr h.severity
  have hscan := FactorScan.ofInputs_of_makes h.factors h.kinds
  have hsome : input.factors.isEmpty = false := by simpa using h.someFactor
  have hweights :
      (if fs.length = FactorType.all.length then checkTotalWeight fs else []) = [] := by
    rw [ite_eq_right_iff, checkTotalWeight_eq_nil]
    exact h.weights
  simp only [examine, hscore, hscan, Except.toOption, hseverity, hsome,
    requireText_eq_nil.mpr h.policy, requireText_eq_nil.mpr h.assessor, Report.note,
    h.factors.length_eq, List.length_map, true_and, hweights]
  simp

private theorem makes_of_examine {input : AssessmentInput α} {s : Score α} {fs : List (Factor α)}
    (h : input.examine = .ok (s, fs)) : input.Makes s fs := by
  unfold examine at h
  generalize hscan : FactorScan.ofInputs input.factors = scan at h
  dsimp only at h
  split at h
  · rename_i s' hscore hfound
    cases h
    rw [hscore] at hfound
    simp only [List.append_eq_nil_iff, requireText_eq_nil, ite_eq_right_iff, Except.toOption,
      checkTotalWeight_eq_nil] at hfound
    obtain ⟨⟨⟨⟨⟨⟨hpolicy, hassessor⟩, -⟩, hseverity⟩, hsome⟩, hclean⟩, hweights⟩ := hfound
    obtain ⟨fs, hmakes, hkinds⟩ := FactorScan.ofInputs_clean_iff.mp (hscan ▸ hclean)
    obtain rfl := hscan.symm.trans (FactorScan.ofInputs_of_makes hmakes hkinds)
    obtain ⟨⟨⟩, hdeclares⟩ := Report.note_eq_nil_iff.mp hseverity
    exact
      { policy := hpolicy
        assessor := hassessor
        score := Score.value_of_ofValue hscore
        severity := checkSeverity_eq_ok.mp hdeclares
        someFactor := fun hnil => by simp [hnil] at hsome
        factors := hmakes
        kinds := hkinds
        weights := fun hlen => hweights ⟨hmakes.length_eq.symm, by simpa using hlen⟩ }
  · cases h

/-- What the check of a submission returns. Score and factors are then determined by the submission.
-/
theorem examine_eq_ok {input : AssessmentInput α} {s : Score α} {fs : List (Factor α)} :
    input.examine = .ok (s, fs) ↔ input.Makes s fs :=
  ⟨makes_of_examine, examine_of_makes⟩

/-- A refusal lists at least one violation. So a refusal always says what is wrong. -/
theorem violations_of_examine {input : AssessmentInput α} {report : Report}
    (h : input.examine = .error report) : report.violations ≠ [] := by
  unfold examine at h
  generalize FactorScan.ofInputs input.factors = scan at h
  dsimp only at h
  split at h
  · cases h
  · rename_i hnot
    cases h
    intro hnil
    cases hscore : Score.ofValue input.riskScore with
    | ok s => exact hnot s hscore hnil
    | error e =>
      rw [hscore] at hnil
      simp [Report.note] at hnil

/-! ### The rules -/

/-- The rules of a submission, in terms of its own fields. Nothing of the pass over the factors is
left in it: no order of checks and no state. -/
structure Admissible (input : AssessmentInput α) : Prop where
  policyId : Text.trim input.policyId ≠ ""
  assessedBy : Text.trim input.assessedBy ≠ ""
  riskScore : Score.InRange input.riskScore
  severity : Declares input.severity (Severity.band input.riskScore)
  someFactor : input.factors ≠ []
  factors : ∀ raw ∈ input.factors, raw.Admissible
  kinds : input.factors.Pairwise FactorInput.OtherKind
  weights : (∀ t : FactorType, ∃ raw ∈ input.factors, Names raw.kind t.code) →
    ¬ Quantity.differBy weightTolerance (Quantity.total (input.factors.map (·.weight)))
      (Quantity.whole 1)

theorem exists_makes_iff {input : AssessmentInput α} :
    (∃ s fs, input.Makes s fs) ↔ input.Admissible := by
  constructor
  · rintro ⟨s, fs, h⟩
    refine ⟨Text.isBlank_eq_false_iff.mp h.policy, Text.isBlank_eq_false_iff.mp h.assessor,
      Score.exists_value.mp ⟨s, h.score⟩, ?_, h.someFactor, exists_makes_list.mp ⟨fs, h.factors⟩,
      (pairwise_otherKind_iff h.factors).mpr h.kinds, fun hall => ?_⟩
    · rw [← h.score]
      exact h.severity
    · rw [← totalWeight_of_makes h.factors]
      refine h.weights ?_
      rw [← List.length_map (·.kind), length_kinds_iff h.kinds]
      exact fun t => (names_iff_mem_kinds h.factors).mp (hall t)
  · -- The parts exist one by one; that they fit together is what `kinds` and `weights` say.
    intro h
    obtain ⟨s, hs⟩ := Score.exists_value.mpr h.riskScore
    obtain ⟨fs, hfs⟩ := exists_makes_list.mpr h.factors
    have hkinds := (pairwise_otherKind_iff hfs).mp h.kinds
    refine ⟨s, fs, Text.isBlank_eq_false_iff.mpr h.policyId,
      Text.isBlank_eq_false_iff.mpr h.assessedBy, hs, ?_, h.someFactor, hfs, hkinds,
      fun hlen => ?_⟩
    · rw [Score.severity_eq_band, hs]
      exact h.severity
    · rw [totalWeight_of_makes hfs]
      refine h.weights fun t => (names_iff_mem_kinds hfs).mpr ?_
      rw [← List.length_map (·.kind), length_kinds_iff hkinds] at hlen
      exact hlen t

/-! ### The check -/

/-- The assessment that an accepted submission is kept as. Only texts change: the names are trimmed,
the kinds become codes, and a severity is filled in. -/
structure Becomes (input : AssessmentInput α) (now : Instant) (a : Assessment α) : Prop where
  policyId : a.policyId = Text.trim input.policyId
  assessedBy : a.assessedBy = Text.trim input.assessedBy
  date : a.assessmentDate = input.assessmentDate.getD now
  riskScore : a.riskScore.value = input.riskScore
  severity : a.severity = Severity.band input.riskScore
  factors : List.Forall₂ (fun raw f => Names raw.kind f.kind.code ∧ f.score.value = raw.score ∧
    f.weight.value = raw.weight ∧ f.severity = Severity.band raw.score) input.factors a.factors

/-- An assessment is built from a submission that stands for its score and its factors. The
severities are not asked for, since an assessment cannot have others. -/
theorem build_eq_ok {input : AssessmentInput α} {now : Instant} {a : Assessment α} :
    input.build now = .ok a ↔ input.Makes a.riskScore a.factors ∧
      a.policyId = Text.trim input.policyId ∧ a.assessedBy = Text.trim input.assessedBy ∧
      a.assessmentDate = input.assessmentDate.getD now := by
  obtain ⟨policyId, s, _, fs, assessedBy, date, rfl⟩ := a
  rw [← examine_eq_ok]
  unfold build
  cases input.examine with
  | error report => simp
  | ok found =>
    obtain ⟨s', fs'⟩ := found
    simp only [Except.ok.injEq, Assessment.mk.injEq, Prod.mk.injEq]
    grind

/-- A submission is built, or refused with the report on it. Which of the two does not depend on the
time. -/
theorem build_cases (input : AssessmentInput α) (now : Instant) :
    (input.validate.violations = [] ∧ ∃ a, input.build now = .ok a) ∨
      input.validate.violations ≠ [] ∧ input.build now = .error input.validate := by
  cases hexamine : input.examine with
  | ok found => exact .inl (by simp [validate, build, hexamine, Report.clean])
  | error report =>
    have hviolations := violations_of_examine hexamine
    exact .inr (by simpa [validate, build, hexamine] using hviolations)

theorem becomes_of_build {input : AssessmentInput α} {now : Instant} {a : Assessment α}
    (h : input.build now = .ok a) : input.Becomes now a := by
  obtain ⟨hmakes, hpolicy, hassessor, hdate⟩ := build_eq_ok.mp h
  refine ⟨hpolicy, hassessor, hdate, hmakes.score, ?_, hmakes.factors.imp fun raw f hf => ?_⟩
  · rw [a.severity_eq, Score.severity_eq_band, hmakes.score]
  · refine ⟨hf.kind, hf.score, hf.weight, ?_⟩
    rw [f.severity_eq, Score.severity_eq_band, hf.score]

/-- **The check.** A submission is valid, and makes an assessment, exactly when it keeps the rules;
the assessment holds what was submitted, and a refusal is the report of the violations. -/
theorem build_accepts (input : AssessmentInput α) (now : Instant) :
    (input.validate.valid = true ↔ input.Admissible) ∧
      match input.build now with
      | .ok a => input.Admissible ∧ input.Becomes now a
      | .error report =>
        ¬ input.Admissible ∧ report = input.validate ∧ report.violations ≠ [] := by
  cases hexamine : input.examine with
  | ok found =>
    obtain ⟨s, fs⟩ := found
    have hadmissible := exists_makes_iff.mp ⟨s, fs, examine_eq_ok.mp hexamine⟩
    cases hbuild : input.build now with
    | ok a =>
      refine ⟨iff_of_true ?_ hadmissible, hadmissible, becomes_of_build hbuild⟩
      simp [validate, hexamine, Report.clean, Report.valid]
    | error report => simp [build, hexamine] at hbuild
  | error report =>
    have hviolations := violations_of_examine hexamine
    have hnot : ¬ input.Admissible := by
      intro h
      obtain ⟨s, fs, hmakes⟩ := exists_makes_iff.mpr h
      rw [examine_of_makes hmakes] at hexamine
      cases hexamine
    have hvalidate : input.validate = report := by rw [validate, hexamine]
    have hbuild : input.build now = .error report := by rw [build, hexamine]
    rw [hvalidate, hbuild]
    exact ⟨iff_of_false (by simpa [Report.valid] using hviolations) hnot, hnot, rfl, hviolations⟩

/-- Neither a number that is none nor an infinite one is a score; negative zero is. -/
example : ¬ Score.InRange (0.0 / 0.0 : Float) ∧ ¬ Score.InRange (1.0 / 0.0 : Float) ∧
    Score.InRange (-0.0 : Float) := by
  decide +kernel

end AssessmentInput

end

/-! ## What an accepted assessment is

An assessment that passed its checks names its policy by a text that is trimmed and not blank
(`PolicyNamed`), whether it was submitted (`AssessmentInput.build`) or scored
(`EvaluationConfig.assess`). -/

section

/-- A policy id as an accepted assessment has it. It is what makes an id usable as the key of a
file. -/
structure PolicyNamed (policyId : PolicyId) : Prop where
  trimmed : Text.trim policyId = policyId
  notBlank : Text.isBlank policyId = false

/-- Ids as assessments have them differ in more than the white space around them. -/
theorem PolicyNamed.eq_of_trim {k k' : PolicyId} (h : PolicyNamed k) (h' : PolicyNamed k')
    (heq : Text.trim k = Text.trim k') : k = k' := by
  rw [← h.trimmed, heq, h'.trimmed]

variable {α : Type} [Quantity α]

/-- A submission that is accepted names a policy. -/
theorem AssessmentInput.policyNamed_of_build {input : AssessmentInput α} {now : Instant}
    {a : Assessment α} (h : input.build now = .ok a) : PolicyNamed a.policyId := by
  obtain ⟨hmakes, hpolicy, -, -⟩ := build_eq_ok.mp h
  rw [hpolicy]
  exact ⟨Text.trim_trim _, (Text.isBlank_trim _).trans hmakes.policy⟩

/-- A scored assessment is built of a submission for the policy of the request. So what holds of
submissions holds of scored assessments too. -/
theorem EvaluationConfig.build_of_assess {config : EvaluationConfig α} {request : ScoreRequest α}
    {now : Instant} {a : Assessment α} (h : config.assess request now = .ok a) :
    ∃ input : AssessmentInput α, input.policyId = request.policyId ∧ input.build now = .ok a := by
  unfold assess at h
  cases hs : compositeScore config.factorWeights request.scores with
  | error report => rw [hs] at h; cases h
  | ok found =>
    rw [hs] at h
    exact ⟨_, rfl, h⟩

theorem EvaluationConfig.policyNamed_of_assess {config : EvaluationConfig α}
    {request : ScoreRequest α} {now : Instant} {a : Assessment α}
    (h : config.assess request now = .ok a) : PolicyNamed a.policyId := by
  obtain ⟨input, -, hbuild⟩ := build_of_assess h
  exact AssessmentInput.policyNamed_of_build hbuild

end

/-! ## Submitting an assessment again

- **Valid** (`Assessment.Valid`): what an assessment keeps of the rules that it was accepted under,
  whether it was submitted or put together from typed parts (`Assessment.Built.valid`).
- **Resubmission** (`Assessment.resubmit`): the assessment as a submission of its own fields, with
  any texts declared as the severities. It is accepted exactly when each text names the severity of
  the score beside it, and then it makes the same assessment (`Assessment.Valid.build_resubmit`). -/

section

open Text (Names)

variable {α : Type} [Quantity α]

theorem FactorType.names_code (t : FactorType) : Names t.code t.code := by cases t <;> decide

theorem Severity.names_code (s : Severity) : Names s.code s.code := by cases s <;> decide

@[simp] theorem declares_some {raw : String} {s : Severity} :
    Declares (some raw) s ↔ Names raw s.code :=
  ⟨fun h => h raw rfl, fun h _ heq => Option.some.inj heq ▸ h⟩

/-! ### Factors -/

/-- The factor as it would be submitted, with a text declared as its severity. The text may be any,
a severity or not. -/
def Factor.declare (f : Factor α) (severity : String) : FactorInput α :=
  { f.toInput with severity := some severity }

theorem Factor.declare_makes_iff {f g : Factor α} {severity : String} :
    (f.declare severity).Makes g ↔ g = f ∧ Names severity f.severity.code := by
  constructor
  · intro hg
    have hf : (f.declare severity).Makes f := ⟨f.kind.names_code, rfl, rfl, hg.severity⟩
    rw [f.severity_eq]
    exact ⟨hg.unique hf, declares_some.mp hf.severity⟩
  · rintro ⟨rfl, h⟩
    rw [g.severity_eq] at h
    exact ⟨g.kind.names_code, rfl, rfl, declares_some.mpr h⟩

theorem Factor.toInput_makes (f : Factor α) : f.toInput.Makes f :=
  Factor.declare_makes_iff.mpr ⟨rfl, f.severity.names_code⟩

theorem forall₂_toInput_makes (fs : List (Factor α)) :
    List.Forall₂ FactorInput.Makes (fs.map Factor.toInput) fs := by
  rw [List.forall₂_map_left_iff, List.forall₂_same]
  exact fun f _ => f.toInput_makes

/-- The texts declared as the severities of factors name them. The text for a factor is found by the
place of the factor. -/
def AllName (severities : Nat → String) (fs : List (Factor α)) : Prop :=
  ∀ i f, fs[i]? = some f → Names (severities i) f.severity.code

private theorem allName_cons {severities : Nat → String} {f : Factor α} {fs : List (Factor α)} :
    AllName severities (f :: fs) ↔
      Names (severities 0) f.severity.code ∧ AllName (fun i => severities (i + 1)) fs := by
  constructor
  · exact fun h => ⟨h 0 f rfl, fun i g hg => h (i + 1) g hg⟩
  · rintro ⟨hhead, htail⟩ (_ | i) g hg
    · cases hg
      exact hhead
    · exact htail i g hg

theorem declare_list_makes_iff {fs gs : List (Factor α)} {severities : Nat → String} :
    List.Forall₂ FactorInput.Makes (fs.mapIdx fun i f => f.declare (severities i)) gs ↔
      gs = fs ∧ AllName severities fs := by
  induction fs generalizing gs severities with
  | nil =>
    rw [List.mapIdx_nil, List.forall₂_nil_left_iff]
    exact (and_iff_left fun i f h => nomatch h).symm
  | cons f fs ih =>
    rw [List.mapIdx_cons, List.forall₂_cons_left_iff, allName_cons]
    simp only [Factor.declare_makes_iff, ih]
    constructor
    · rintro ⟨_, _, ⟨rfl, hhead⟩, ⟨rfl, htail⟩, rfl⟩
      exact ⟨rfl, hhead, htail⟩
    · rintro ⟨rfl, hhead, htail⟩
      exact ⟨f, fs, ⟨rfl, hhead⟩, ⟨rfl, htail⟩, rfl⟩

/-! ### Assessments -/

namespace Assessment

@[ext] theorem ext {a b : Assessment α} (hpolicy : a.policyId = b.policyId)
    (hscore : a.riskScore = b.riskScore) (hfactors : a.factors = b.factors)
    (hassessor : a.assessedBy = b.assessedBy) (hdate : a.assessmentDate = b.assessmentDate) :
    a = b := by
  obtain ⟨_, _, _, _, _, _, rfl⟩ := a
  obtain ⟨_, _, _, _, _, _, rfl⟩ := b
  simp_all

/-- The assessment was submitted, or put together from typed parts. There is no third way to come by
one. -/
inductive Built (a : Assessment α) : Prop
  | submitted (input : AssessmentInput α) (now : Instant) (h : input.build now = .ok a)
  | assembled (policyId : PolicyId) (score : Score α) (factors : List (Factor α))
      (assessedBy : String) (date : Instant)
      (h : ofParts policyId score factors assessedBy date = .ok a)

/-- What an assessment keeps of the rules that it was accepted under. The rules on its numbers need
no mention, since scores and weights carry theirs. -/
structure Valid (a : Assessment α) : Prop where
  policyTrimmed : Text.trim a.policyId = a.policyId
  policyNotBlank : Text.isBlank a.policyId = false
  assessorTrimmed : Text.trim a.assessedBy = a.assessedBy
  assessorNotBlank : Text.isBlank a.assessedBy = false
  someFactor : a.factors ≠ []
  kinds : (a.factors.map (·.kind)).Nodup
  weights : a.factors.length = FactorType.all.length →
    ¬ Quantity.differBy weightTolerance (totalWeight a.factors) (Quantity.whole 1)

theorem valid_of_build {a : Assessment α} {input : AssessmentInput α} {now : Instant}
    (h : input.build now = .ok a) : a.Valid := by
  obtain ⟨hmakes, hpolicy, hassessor, -⟩ := AssessmentInput.build_eq_ok.mp h
  refine ⟨?_, ?_, ?_, ?_, fun hnil => hmakes.someFactor ?_, hmakes.kinds, hmakes.weights⟩
  · rw [hpolicy, Text.trim_trim]
  · rw [hpolicy, Text.isBlank_trim]
    exact hmakes.policy
  · rw [hassessor, Text.trim_trim]
  · rw [hassessor, Text.isBlank_trim]
    exact hmakes.assessor
  · have hlength := hmakes.factors.length_eq
    rwa [hnil, List.length_nil, List.length_eq_zero_iff] at hlength

theorem Built.valid {a : Assessment α} (h : a.Built) : a.Valid := by
  cases h with
  | submitted input now h => exact valid_of_build h
  | assembled policyId score factors assessedBy date h => exact valid_of_build h

/-- The assessment as a submission, with texts declared as its severity and as those of its factors.
Its date goes along, so the time of the second submission does not matter. -/
def resubmit (a : Assessment α) (severity : String) (severities : Nat → String) :
    AssessmentInput α where
  policyId := a.policyId
  riskScore := a.riskScore.value
  severity := some severity
  factors := a.factors.mapIdx fun i f => f.declare (severities i)
  assessedBy := a.assessedBy
  assessmentDate := some a.assessmentDate

/-- **Resubmission.** It is accepted exactly when every text names the severity of its score, and
gives the assessment back. No other assessment can come of it, whatever the texts. -/
theorem Valid.build_resubmit {a b : Assessment α} (h : a.Valid) {severity : String}
    {severities : Nat → String} (now : Instant) :
    (a.resubmit severity severities).build now = .ok b ↔
      b = a ∧ Names severity a.severity.code ∧ AllName severities a.factors := by
  rw [AssessmentInput.build_eq_ok]
  constructor
  · rintro ⟨hmakes, hpolicy, hassessor, hdate⟩
    obtain ⟨hfactors, hnames⟩ := declare_list_makes_iff.mp hmakes.factors
    have hscore : b.riskScore = a.riskScore := Score.ext hmakes.score
    have hseverity : Names severity b.riskScore.severity.code := declares_some.mp hmakes.severity
    -- The scores agree first, and with them the bands that the texts have to name.
    rw [hscore, ← a.severity_eq] at hseverity
    refine ⟨?_, hseverity, hnames⟩
    exact Assessment.ext (hpolicy.trans h.policyTrimmed) hscore hfactors
      (hassessor.trans h.assessorTrimmed) hdate
  · rintro ⟨rfl, hseverity, hnames⟩
    rw [b.severity_eq] at hseverity
    refine ⟨?_, h.policyTrimmed.symm, h.assessorTrimmed.symm, rfl⟩
    exact
      { policy := h.policyNotBlank
        assessor := h.assessorNotBlank
        score := rfl
        severity := declares_some.mpr hseverity
        someFactor := by simpa [resubmit] using h.someFactor
        factors := declare_list_makes_iff.mpr ⟨rfl, hnames⟩
        kinds := h.kinds
        weights := h.weights }

end Assessment

end

end PolicyDesk
