import PolicyDesk.Proofs.Assessment.Violations
import PolicyDesk.Proofs.Double.Bounds
import PolicyDesk.Proofs.Evaluation.Scoring

/-!
# Which requests are scored

- **Requests** (`ScoreRequest.Weighable`, `ScoreRequest.Assessable`): the rules of a request, in
  terms of its own scores and texts and of the configured weights.
- **The division** (`ScoreRequest.divides`): it is reached only when nothing is at fault. The total
  weight is then positive and finite, and the weighted mean is a score whatever the roundings on the
  way (`composite_inRange`).
- **Refusals**: what is at fault is one of the scores (`ofScores_of_faults`), or else the texts or
  the weights of a complete set (`ofParts_cases`).
- **Scoring** (`EvaluationConfig.scoringDomain`): a request has an assessment exactly when it keeps
  the rules.
-/

namespace PolicyDesk

open Quantity (whole total)

/-! ## Requests -/

section

variable {α : Type}

/-- The kinds that are supplied, in the order of the kinds. -/
def ScoreRequest.kinds (r : ScoreRequest α) : List FactorType :=
  FactorType.all.filter fun kind => (r.score? kind).isSome

theorem ScoreRequest.mem_kinds {r : ScoreRequest α} {kind : FactorType} :
    kind ∈ r.kinds ↔ ∃ x, r.score? kind = some x := by
  simp [kinds, FactorType.mem_all, Option.isSome_iff_exists]

/-- The scores of a request come in the order of the kinds. -/
theorem ScoreRequest.kinds_eq (r : ScoreRequest α) : r.scores.map (·.1) = r.kinds := by
  unfold scores kinds
  induction FactorType.all with
  | nil => rfl
  | cons kind kinds ih => cases hx : r.score? kind <;> simp [hx, ih]

private theorem ScoreRequest.kinds_nodup (r : ScoreRequest α) : r.kinds.Nodup :=
  List.Nodup.filter _ (by decide : FactorType.all.Nodup)

private theorem ScoreRequest.kinds_of_complete {r : ScoreRequest α}
    (h : ∀ t ∈ FactorType.all, t ∈ r.kinds) : r.kinds = FactorType.all :=
  List.filter_eq_self.mpr fun t ht => (List.mem_filter.mp (h t ht)).2

variable [Quantity α]

/-- The scores of a request can be weighed. Only the weights of the kinds that are supplied count.
-/
structure ScoreRequest.Weighable (weights : FactorWeights α) (r : ScoreRequest α) : Prop where
  someScore : r.kinds ≠ []
  scoresInRange : ∀ kind x, r.score? kind = some x → Score.InRange x
  weightsInRange : ∀ kind ∈ r.kinds, Weight.InRange (weights.get kind)
  positive : whole 0 < total (r.kinds.map weights.get)

/-- The fields at fault in a request whose scores can be weighed. The weights are checked only when
all kinds are supplied. -/
def ScoreRequest.remainingFields (weights : FactorWeights α) (r : ScoreRequest α) : List String :=
  (if Text.trim r.policyId = "" then ["policy_id"] else []) ++
  (if Text.trim r.assessedBy = "" then ["assessed_by"] else []) ++
  (if (∀ t ∈ FactorType.all, t ∈ r.kinds) ∧
      Quantity.differBy weightTolerance (total (FactorType.all.map weights.get)) (whole 1)
    then ["factors"] else [])

private theorem ScoreRequest.remainingFields_subset {weights : FactorWeights α}
    {r : ScoreRequest α} :
    r.remainingFields weights ⊆ ["policy_id", "assessed_by", "factors"] := by
  intro field hfield
  simp only [remainingFields, List.mem_append, List.mem_ite_nil_right, List.mem_singleton] at hfield
  obtain (⟨-, rfl⟩ | ⟨-, rfl⟩) | ⟨-, rfl⟩ := hfield <;> simp

/-- The rules of a request. -/
structure ScoreRequest.Assessable (weights : FactorWeights α) (r : ScoreRequest α) : Prop where
  weighable : r.Weighable weights
  policyId : Text.trim r.policyId ≠ ""
  assessedBy : Text.trim r.assessedBy ≠ ""
  complete : (∀ kind, ∃ x, r.score? kind = some x) →
    ¬ Quantity.differBy weightTolerance (total (FactorType.all.map weights.get)) (whole 1)

theorem ScoreRequest.assessable_iff {weights : FactorWeights α} {r : ScoreRequest α} :
    r.Assessable weights ↔ r.Weighable weights ∧ r.remainingFields weights = [] := by
  have hall : (∀ t ∈ FactorType.all, t ∈ r.kinds) ↔ ∀ kind, ∃ x, r.score? kind = some x := by
    simp only [mem_kinds, FactorType.mem_all, true_imp_iff]
  simp only [remainingFields, List.append_eq_nil_iff, ite_eq_right_iff, List.cons_ne_nil, imp_false,
    hall, not_and]
  constructor
  · exact fun h => ⟨h.weighable, ⟨h.policyId, h.assessedBy⟩, h.complete⟩
  · rintro ⟨hweighable, ⟨hpolicy, hassessor⟩, hcomplete⟩
    exact ⟨hweighable, hpolicy, hassessor, hcomplete⟩

end

/-! ## Factors of a request -/

section

variable {α : Type} [Quantity α] {weights : FactorWeights α} {r : ScoreRequest α}
  {fs : List (Factor α)}

namespace ScoreRequest

theorem kinds_of_weighs (h : List.Forall₂ (Weighs weights) r.scores fs) :
    fs.map (·.kind) = r.kinds := by
  rw [← r.kinds_eq]
  generalize r.scores = scores at h
  induction h with
  | nil => rfl
  | cons hf _ ih => rw [List.map_cons, List.map_cons, hf.kind, ih]

private theorem length_of_weighs (h : List.Forall₂ (Weighs weights) r.scores fs) :
    fs.length ≤ FactorType.all.length := by
  rw [← List.length_map (·.kind), kinds_of_weighs h]
  exact List.length_filter_le _ _

/-- Each factor of a request has the score supplied for its kind, and the configured weight. -/
theorem weighs_of_mem (h : List.Forall₂ (Weighs weights) r.scores fs) {f : Factor α}
    (hf : f ∈ fs) : r.score? f.kind = some f.score.value ∧ f.weight.value = weights.get f.kind := by
  have hentry : ∃ entry ∈ r.scores, Weighs weights entry f := by
    generalize r.scores = scores at h
    induction h with
    | nil => cases hf
    | @cons entry g scores fs hg _ ih =>
      obtain rfl | hf := List.mem_cons.mp hf
      · exact ⟨entry, List.mem_cons_self, hg⟩
      · obtain ⟨entry', hentry, hweighs⟩ := ih hf
        exact ⟨entry', List.mem_cons_of_mem entry hentry, hweighs⟩
  obtain ⟨⟨kind, x⟩, hentry, hweighs⟩ := hentry
  rw [hweighs.kind, hweighs.score, hweighs.weight]
  exact ⟨mem_scores.mp hentry, rfl⟩

private theorem totalWeight_of_weighs (h : List.Forall₂ (Weighs weights) r.scores fs) :
    totalWeight fs = total (r.kinds.map weights.get) := by
  rw [totalWeight, ← kinds_of_weighs h, List.map_map]
  exact congrArg total (List.map_congr_left fun f hf => (weighs_of_mem h hf).2)

end ScoreRequest

private theorem ofScores_of_mem_scoreViolations {scores : List (FactorType × α)} {v : Violation}
    (h : v ∈ scoreViolations (scores.map (weighFactor weights))) : v.OfScores := by
  obtain ⟨result, hresult, hv⟩ := List.mem_flatMap.mp h
  obtain ⟨entry, -, rfl⟩ := List.mem_map.mp hresult
  obtain ⟨f, -, hok⟩ | ⟨found, -, -, hfields, herror⟩ := weighFactor_cases weights entry
  · rw [hok] at hv
    cases hv
  · rw [herror] at hv
    exact hfields v hv

/-- What is at fault before the division is one of the scores or all of them. -/
theorem ofScores_of_faults {scores : List (FactorType × α)} :
    ∀ v ∈ scoringFaults weights scores, v.OfScores := by
  intro v hv
  simp only [scoringFaults, List.mem_append, List.mem_ite_nil_right, List.mem_singleton] at hv
  obtain (⟨-, rfl⟩ | hscore) | ⟨-, rfl⟩ := hv
  · exact .inl rfl
  · exact ofScores_of_mem_scoreViolations hscore
  · exact .inl rfl

end

/-! ## The division -/

section

open Double (AtMost atMost_hundred atMost_one)

variable {fs : List (Factor Float)}

/-- There are at most four factors, and each weight is at most one; rounding does not carry a sum
over a bound that is a small integer. -/
theorem totalWeight_atMost (hfew : fs.length ≤ FactorType.all.length) :
    AtMost (totalWeight fs) (fs.length : Nat) := by
  have hweights : ∀ w ∈ fs.map (·.weight.value), AtMost w (1 : Nat) := by
    intro w hw
    obtain ⟨f, -, rfl⟩ := List.mem_map.mp hw
    exact_mod_cast atMost_one f.weight.inRange.2.1 f.weight.inRange.2.2
  have hlt : (fs.map (·.weight.value)).length * 1 < 2 ^ 53 := by
    rw [List.length_map]
    exact (Nat.mul_le_mul_right 1 hfew).trans_lt (by decide)
  have htotal := AtMost.total hweights hlt
  rwa [List.length_map, mul_one] at htotal

theorem weightedSum_atMost (hfew : fs.length ≤ FactorType.all.length) :
    AtMost (weightedSum fs) (fs.length * 100 : Nat) := by
  have hproducts : ∀ x ∈ fs.map fun f => f.score.value * f.weight.value, AtMost x (100 : Nat) := by
    intro x hx
    obtain ⟨f, -, rfl⟩ := List.mem_map.mp hx
    have hscore : AtMost f.score.value (100 : Nat) :=
      atMost_hundred f.score.inRange.2.1 f.score.inRange.2.2
    have hproduct := hscore.mul (atMost_one f.weight.inRange.2.1 f.weight.inRange.2.2)
      (by rw [mul_one]; exact Double.exact_natCast (by decide))
    rwa [mul_one] at hproduct
  have hlt : (fs.map fun f => f.score.value * f.weight.value).length * 100 < 2 ^ 53 := by
    rw [List.length_map]
    exact (Nat.mul_le_mul_right 100 hfew).trans_lt (by decide)
  have htotal := AtMost.total hproducts hlt
  rwa [List.length_map] at htotal

/-- The total weight is a number, so that it is positive when it is not at most zero. -/
theorem totalWeight_pos (hfew : fs.length ≤ FactorType.all.length) :
    ¬ totalWeight fs ≤ whole 0 ↔ whole 0 < totalWeight fs := by
  obtain ⟨w, hw, -⟩ := totalWeight_atMost hfew
  have hzero : Quantity.IsNumber (whole 0 : Float) :=
    (MonotoneQuantity.isNumber_of_le MonotoneQuantity.zero_le_neg_zero).1
  have hnumber := Double.FromZero.isNumber (.inl ⟨w, hw⟩)
  exact ⟨(MonotoneQuantity.lt_or_le hzero hnumber).resolve_right, MonotoneQuantity.not_le_of_lt⟩

/-- The weighted mean is a score. The quotient of the two sums may even be infinite here: clamped it
is one. -/
theorem composite_inRange (hfew : fs.length ≤ FactorType.all.length)
    (hpos : whole 0 < totalWeight fs) : Score.InRange (composite fs) := by
  obtain ⟨sum, hsum, -⟩ := weightedSum_atMost hfew
  obtain ⟨w, hw, -⟩ := totalWeight_atMost hfew
  have hweight : 0 < w := (Double.lt_iff_of_isValue Double.isValue_whole_zero hw).mp hpos
  -- A quotient by a positive number is no NaN, which is all that clamping asks for.
  have hmean : Double.FromZero (Double.read (weightedSum fs / totalWeight fs)) :=
    Double.fromZero_of_place (Double.place_kept_div hsum hw hweight)
  have hbounds : (whole 0 : Float) ≤ whole 100 :=
    MonotoneQuantity.le_of_lt MonotoneQuantity.zero_lt_hundred
  obtain ⟨hlow, hhigh⟩ := MonotoneQuantity.clamp_mem hbounds hmean.hundredths.isNumber
  exact ⟨(atMost_hundred hlow hhigh).isFinite, hlow, hhigh⟩

end

/-! ## Typed parts -/

section

variable {α : Type} [Quantity α] {weights : FactorWeights α} {r : ScoreRequest α}
  {fs : List (Factor α)}

/-- What is at fault in the factors of a request and in its texts. -/
theorem fields_ofParts (hweighs : List.Forall₂ (Weighs weights) r.scores fs) (hsome : fs ≠ [])
    (score : Score α) (date : Instant) :
    (AssessmentInput.validate ⟨r.policyId, score.value, none, fs.map Factor.toInput, r.assessedBy,
      some date⟩).fields = r.remainingFields weights := by
  have hkinds := r.kinds_of_weighs hweighs
  have hscan := FactorScan.ofInputs_of_makes (forall₂_toInput_makes fs) (hkinds ▸ r.kinds_nodup)
  have hcomplete : (fs.length = (fs.map Factor.toInput).length ∧
      (fs.map (·.kind)).length = FactorType.all.length) ↔ ∀ t ∈ FactorType.all, t ∈ r.kinds := by
    rw [hkinds, length_kinds_iff r.kinds_nodup]
    simp [FactorType.mem_all]
  have hundeclared : ¬ AssessmentInput.Misdeclared none score.value :=
    fun ⟨_, hraw, _⟩ => nomatch hraw
  have hinputs : (fs.map Factor.toInput).isEmpty = false := by simpa using hsome
  rw [Report.fields, AssessmentInput.violations_validate]
  simp only [hscan, hcomplete, hinputs, List.map_append, AssessmentInput.fields_requireText,
    AssessmentInput.fields_score, AssessmentInput.fields_severity, apply_ite (List.map _),
    AssessmentInput.fields_checkTotalWeight, if_pos score.inRange, if_neg hundeclared,
    List.map_nil, Bool.false_eq_true, if_false, List.append_nil]
  rw [ScoreRequest.remainingFields, ite_and]
  by_cases hall : ∀ t ∈ FactorType.all, t ∈ r.kinds
  · rw [if_pos hall, if_pos hall, r.totalWeight_of_weighs hweighs, r.kinds_of_complete hall]
  · rw [if_neg hall, if_neg hall]

/-- Typed parts of a request are put together, or the fields at fault are reported. -/
theorem ofParts_cases (hweighs : List.Forall₂ (Weighs weights) r.scores fs) (hsome : fs ≠ [])
    (score : Score α) (date : Instant) :
    (r.remainingFields weights = [] ∧
        ∃ a, Assessment.ofParts r.policyId score fs r.assessedBy date = .ok a) ∨
      ∃ report, r.remainingFields weights ≠ [] ∧ report.fields = r.remainingFields weights ∧
        Assessment.ofParts r.policyId score fs r.assessedBy date = .error report := by
  have hfields := fields_ofParts hweighs hsome score date
  unfold Assessment.ofParts
  generalize (⟨r.policyId, score.value, none, fs.map Factor.toInput, r.assessedBy, some date⟩ :
    AssessmentInput α) = input at *
  obtain ⟨hnone, ha⟩ | ⟨hsome, herror⟩ := input.build_cases date
  · refine .inl ⟨?_, ha⟩
    rw [← hfields, Report.fields, hnone, List.map_nil]
  · refine .inr ⟨_, ?_, hfields, herror⟩
    rw [← hfields, Report.fields]
    simpa using hsome

end

/-! ## Scoring -/

/-- The request was scored as this assessment: one factor for each kind supplied, in the order of
the kinds, under the texts of the request. -/
structure ScoreRequest.ScoredAs (r : ScoreRequest Float) (weights : FactorWeights Float)
    (now : Instant) (a : Assessment Float) : Prop where
  kinds : a.factors.map (·.kind) = r.kinds
  scores : ∀ f ∈ a.factors, r.score? f.kind = some f.score.value
  weights : ∀ f ∈ a.factors, f.weight.value = weights.get f.kind
  riskScore : a.riskScore.value = composite a.factors
  policyId : a.policyId = Text.trim r.policyId
  assessedBy : a.assessedBy = Text.trim r.assessedBy
  date : a.assessmentDate = now

/-- What scoring a request comes to. -/
structure ScoringDomain (config : EvaluationConfig Float) (r : ScoreRequest Float) (now : Instant) :
    Prop where
  /-- A request has an assessment exactly when it keeps the rules. -/
  accepted : (∃ a, config.assess r now = .ok a) ↔ r.Assessable config.factorWeights
  /-- When nothing is at fault the divisor is positive and finite, and the mean is a score. -/
  division : scoringFaults config.factorWeights r.scores = [] →
    let factors := weighedFactors config.factorWeights r.scores
    whole 0 < totalWeight factors ∧ (totalWeight factors).isFinite = true ∧
      ∃ score, Score.ofValue (composite factors) = .ok score ∧
        compositeScore config.factorWeights r.scores = .ok (factors, score)
  /-- Otherwise the request is refused for that and nothing is divided. -/
  undivided : scoringFaults config.factorWeights r.scores ≠ [] →
    config.assess r now = .error ⟨scoringFaults config.factorWeights r.scores⟩
  /-- Scores or weights at fault are reported, and nothing else is. -/
  faulty : ¬ r.Weighable config.factorWeights → ∃ report, config.assess r now = .error report ∧
    report.violations ≠ [] ∧ ∀ v ∈ report.violations, v.OfScores
  /-- Without them a refusal names the texts, or the weights of a complete set. -/
  remaining : r.Weighable config.factorWeights → ∀ report, config.assess r now = .error report →
    report.fields = r.remainingFields config.factorWeights ∧
      report.fields ⊆ ["policy_id", "assessed_by", "factors"]
  scored : ∀ a, config.assess r now = .ok a → r.ScoredAs config.factorWeights now a

section

variable {config : EvaluationConfig Float} {r : ScoreRequest Float} {now : Instant}
  {weights : FactorWeights Float} {fs : List (Factor Float)}

/-- Nothing is at fault exactly when the scores can be weighed. -/
theorem ScoreRequest.scoringFaults_eq_nil_iff :
    scoringFaults weights r.scores = [] ↔ r.Weighable weights := by
  rw [scoringFaults_eq_nil]
  constructor
  · rintro ⟨hscores, hweighs, hweight⟩
    have hinRange (kind : FactorType) (x : Float) (hx : r.score? kind = some x) :
        Score.InRange x ∧ Weight.InRange (weights.get kind) :=
      exists_weighs_iff.mp (exists_forall₂_iff.mp ⟨_, hweighs⟩ (kind, x) (mem_scores.mpr hx))
    rw [totalWeight_pos (length_of_weighs hweighs), totalWeight_of_weighs hweighs] at hweight
    refine ⟨fun hnil => hscores ?_, fun kind x hx => (hinRange kind x hx).1, fun kind hkind => ?_,
      hweight⟩
    · rwa [← r.kinds_eq, List.map_eq_nil_iff] at hnil
    · obtain ⟨x, hx⟩ := mem_kinds.mp hkind
      exact (hinRange kind x hx).2
  · intro h
    have hsome : ∃ fs, List.Forall₂ (Weighs weights) r.scores fs := by
      refine exists_forall₂_iff.mpr fun ⟨kind, x⟩ hentry => exists_weighs_iff.mpr ?_
      have hx := mem_scores.mp hentry
      exact ⟨h.scoresInRange kind x hx, h.weightsInRange kind (mem_kinds.mpr ⟨x, hx⟩)⟩
    obtain ⟨fs, hweighs⟩ := hsome
    obtain ⟨-, rfl⟩ := clean_of_weighs hweighs
    refine ⟨fun hnil => h.someScore ?_, hweighs, ?_⟩
    · rw [← r.kinds_eq, hnil, List.map_nil]
    · rw [totalWeight_pos (length_of_weighs hweighs), totalWeight_of_weighs hweighs]
      exact h.positive

/-- Without faults the division has a positive, finite divisor and gives a score. -/
theorem ScoreRequest.divides (h : scoringFaults weights r.scores = []) :
    whole 0 < totalWeight (weighedFactors weights r.scores) ∧
      (totalWeight (weighedFactors weights r.scores)).isFinite = true ∧
      ∃ score, Score.ofValue (composite (weighedFactors weights r.scores)) = .ok score ∧
        compositeScore weights r.scores = .ok (weighedFactors weights r.scores, score) := by
  obtain ⟨hscores, hweighs, hweight⟩ := scoringFaults_eq_nil.mp h
  have hfew := length_of_weighs hweighs
  have hpos := (totalWeight_pos hfew).mp hweight
  obtain ⟨score, hscore⟩ := Score.exists_value.mpr (composite_inRange hfew hpos)
  exact ⟨hpos, (totalWeight_atMost hfew).isFinite, score, Score.ofValue_eq_ok.mpr hscore,
    compositeScore_eq_ok.mpr ⟨hscores, hweighs, hweight, hscore⟩⟩

namespace EvaluationConfig

/-- The faults are the report, as nothing else was looked at. -/
theorem assess_of_faults (h : scoringFaults config.factorWeights r.scores ≠ []) :
    config.assess r now = .error ⟨scoringFaults config.factorWeights r.scores⟩ := by
  have hfaults : (scoringFaults config.factorWeights r.scores).isEmpty = false := by simpa using h
  rw [assess, compositeScore_eq, hfaults]
  rfl

/-- Scores that can be weighed leave the texts and the weights of a complete set to be checked. -/
private theorem assess_of_weighable (h : r.Weighable config.factorWeights) :
    (r.remainingFields config.factorWeights = [] ∧ ∃ a, config.assess r now = .ok a) ∨
      ∃ report, r.remainingFields config.factorWeights ≠ [] ∧
        report.fields = r.remainingFields config.factorWeights ∧
        config.assess r now = .error report := by
  have hclean := ScoreRequest.scoringFaults_eq_nil_iff.mpr h
  obtain ⟨hscores, hweighs, -⟩ := scoringFaults_eq_nil.mp hclean
  obtain ⟨-, -, score, -, hcomposite⟩ := ScoreRequest.divides hclean
  have hfactors : weighedFactors config.factorWeights r.scores ≠ [] := by
    intro hnil
    rw [hnil, List.forall₂_nil_right_iff] at hweighs
    exact hscores hweighs
  rw [assess, hcomposite]
  exact ofParts_cases hweighs hfactors score now

/-- What is built is what was scored, under the texts of the request. -/
theorem scoredAs_of_assess {a : Assessment Float} (h : config.assess r now = .ok a) :
    r.ScoredAs config.factorWeights now a := by
  have hscores := scores_of_assess h
  unfold assess at h
  cases hcomposite : compositeScore config.factorWeights r.scores with
  | error report =>
    rw [hcomposite] at h
    cases h
  | ok found =>
    rw [hcomposite] at h
    obtain ⟨-, hpolicy, hassessor, hdate⟩ := AssessmentInput.build_eq_ok.mp h
    exact
      { kinds := r.kinds_of_weighs hscores.factors
        scores := fun f hf => (r.weighs_of_mem hscores.factors hf).1
        weights := fun f hf => (r.weighs_of_mem hscores.factors hf).2
        riskScore := hscores.composite
        policyId := hpolicy
        assessedBy := hassessor
        date := hdate }

private theorem weighable_of_assess {a : Assessment Float} (h : config.assess r now = .ok a) :
    r.Weighable config.factorWeights := by
  by_contra hnot
  rw [assess_of_faults (mt ScoreRequest.scoringFaults_eq_nil_iff.mp hnot)] at h
  cases h

theorem exists_assess_iff :
    (∃ a, config.assess r now = .ok a) ↔ r.Assessable config.factorWeights := by
  rw [ScoreRequest.assessable_iff]
  constructor
  · rintro ⟨a, ha⟩
    have hweighable := weighable_of_assess ha
    obtain ⟨hnone, -⟩ | ⟨report, -, -, herror⟩ := assess_of_weighable hweighable
    · exact ⟨hweighable, hnone⟩
    · rw [herror] at ha
      cases ha
  · rintro ⟨hweighable, hnone⟩
    obtain ⟨-, ha⟩ | ⟨report, hsome, -⟩ := assess_of_weighable hweighable
    · exact ha
    · exact absurd hnone hsome

private theorem fields_of_refused (hweighable : r.Weighable config.factorWeights) {report : Report}
    (h : config.assess r now = .error report) :
    report.fields = r.remainingFields config.factorWeights := by
  obtain ⟨-, a, ha⟩ | ⟨found, -, hfields, herror⟩ := assess_of_weighable hweighable
  · rw [ha] at h
    cases h
  · rw [herror] at h
    cases h
    exact hfields

/-- **Scoring.** A request has an assessment exactly when it keeps the rules, whatever doubles the
scores and the weights are; nothing is divided by a total that is not positive and finite. -/
theorem scoringDomain (config : EvaluationConfig Float) (r : ScoreRequest Float) (now : Instant) :
    ScoringDomain config r now where
  accepted := exists_assess_iff
  division := ScoreRequest.divides
  undivided := assess_of_faults
  faulty hnot := by
    have hfaults := mt ScoreRequest.scoringFaults_eq_nil_iff.mp hnot
    exact ⟨_, assess_of_faults hfaults, hfaults, ofScores_of_faults⟩
  remaining hweighable report h := by
    have hfields := fields_of_refused hweighable h
    exact ⟨hfields, hfields ▸ ScoreRequest.remainingFields_subset⟩
  scored _ := scoredAs_of_assess

/-- The least positive weight is enough, and the weight of a kind that is not supplied may be
undefined. -/
example :
    let weights : FactorWeights Float := ⟨5e-324, 0, -0.0, 0.0 / 0.0⟩
    let r : ScoreRequest Float :=
      ⟨"pol-1", fun kind => if kind = .businessType then none else some 100, "ana"⟩
    (assess ⟨weights, true, true⟩ r ⟨0, 0⟩).isOk = true := by
  decide +kernel

end EvaluationConfig

end

end PolicyDesk
