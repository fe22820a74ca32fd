import PolicyDesk.Proofs.Assessment.Admissible
import PolicyDesk.Proofs.Quantity

/-!
# What scoring makes of a request

- **Factors** (`Weighs`): a score stands for the factor that has it under the configured weight.
- **Faults** (`scoringFaults`): nothing is at fault when there are scores, all of them stand for
  factors, and these have a weight (`scoringFaults_eq_nil`); only then is the weighted mean computed
  (`compositeScore_eq`, `compositeScore_eq_ok`).
- **Assessments** (`EvaluationConfig.Scores`): what the assessment of a request is
  (`EvaluationConfig.scores_of_assess`).
- **Order** (`composite_le_composite`): with the same weights, greater scores have no smaller
  composite score.
-/

namespace PolicyDesk

open Quantity (whole total hundredths IsNumber)
open MonotoneQuantity

section

variable {α : Type} [Quantity α]

/-! ## Factors -/

/-- The factor that a score stands for. -/
structure Weighs (weights : FactorWeights α) (entry : FactorType × α) (f : Factor α) : Prop where
  kind : f.kind = entry.1
  score : f.score.value = entry.2
  weight : f.weight.value = weights.get entry.1

theorem exists_weighs_iff {weights : FactorWeights α} {entry : FactorType × α} :
    (∃ f, Weighs weights entry f) ↔
      Score.InRange entry.2 ∧ Weight.InRange (weights.get entry.1) := by
  constructor
  · rintro ⟨f, h⟩
    exact ⟨Score.exists_value.mp ⟨f.score, h.score⟩, Weight.exists_value.mp ⟨f.weight, h.weight⟩⟩
  · rintro ⟨hscore, hweight⟩
    exact ⟨.graded entry.1 ⟨entry.2, hscore⟩ ⟨weights.get entry.1, hweight⟩, rfl, rfl, rfl⟩

/-- The violation is of the scores, or of one of them. -/
def Violation.OfScores (v : Violation) : Prop :=
  v.field = "factor_scores" ∨ ∃ rest, v.field = "factor_scores." ++ rest

/-- A score is made a factor, or it stands for none and violations are found. The score is checked
before the weight. -/
theorem weighFactor_cases (weights : FactorWeights α) (entry : FactorType × α) :
    (∃ f, Weighs weights entry f ∧ weighFactor weights entry = .ok f) ∨
      ∃ found, (∀ f, ¬ Weighs weights entry f) ∧ found ≠ [] ∧ (∀ v ∈ found, v.OfScores) ∧
        weighFactor weights entry = .error found := by
  unfold weighFactor
  cases hs : Score.ofValue entry.2 with
  | error e =>
    have hrange := (Score.ofValue_eq_error_iff.mp hs).1
    refine .inr ⟨_, fun f hf => hrange (exists_weighs_iff.mp ⟨f, hf⟩).1, by simp, ?_, rfl⟩
    rw [List.forall_mem_singleton]
    exact .inr ⟨_, rfl⟩
  | ok score =>
    unfold Factor.make
    cases hw : Weight.ofValue (weights.get entry.1) with
    | error e =>
      refine .inr ⟨_, fun f hf => ?_, by simp, ?_, rfl⟩
      · rw [Weight.ofValue_eq_ok.mpr hf.weight] at hw
        cases hw
      · rw [List.map_singleton, List.forall_mem_singleton]
        refine .inr ⟨entry.1.code ++ "." ++ "weight", ?_⟩
        simp only [scoreField, String.append_assoc]
    | ok w =>
      exact .inl ⟨_, ⟨rfl, Score.value_of_ofValue hs, Weight.value_of_ofValue hw⟩, rfl⟩

theorem Weighs.weighFactor_eq {weights : FactorWeights α} {entry : FactorType × α} {f : Factor α}
    (h : Weighs weights entry f) : weighFactor weights entry = .ok f := by
  simp only [weighFactor, Factor.make, Score.ofValue_eq_ok.mpr h.score,
    Weight.ofValue_eq_ok.mpr h.weight]
  rw [← h.kind, f.graded_parts]

/-! ## Faults -/

/-- The violations found in the scores of a request. -/
def scoreViolations (results : List (Except (List Violation) (Factor α))) : List Violation :=
  results.flatMap fun r => match r with | .ok _ => [] | .error found => found

/-- The factors that are made of the scores of a request. -/
def weighedFactors (weights : FactorWeights α) (scores : List (FactorType × α)) :
    List (Factor α) :=
  (scores.map (weighFactor weights)).filterMap Except.toOption

/-- What is found at fault in the scores and their weights, before anything is divided. The weights
are only added up when some factor could be made. -/
def scoringFaults (weights : FactorWeights α) (scores : List (FactorType × α)) : List Violation :=
  (if scores.isEmpty then [⟨"factor_scores", "at least one factor score is required"⟩] else []) ++
  scoreViolations (scores.map (weighFactor weights)) ++
  (if ¬ (weighedFactors weights scores).isEmpty ∧
      totalWeight (weighedFactors weights scores) ≤ whole 0 then
    [⟨"factor_scores", "configured weights for these factors are all zero"⟩] else [])

section

variable {weights : FactorWeights α} {scores : List (FactorType × α)} {fs : List (Factor α)}
  {s : Score α}

/-- The weighted mean is only computed when nothing is at fault. -/
theorem compositeScore_eq (weights : FactorWeights α) (scores : List (FactorType × α)) :
    compositeScore weights scores =
      if (scoringFaults weights scores).isEmpty then
        match Score.ofValue (composite (weighedFactors weights scores)) with
        | .ok score => .ok (weighedFactors weights scores, score)
        | .error e => .error ⟨[⟨"factor_scores", e.message⟩]⟩
      else .error ⟨scoringFaults weights scores⟩ := rfl

private theorem weighs_of_clean (h : scoreViolations (scores.map (weighFactor weights)) = []) :
    List.Forall₂ (Weighs weights) scores (weighedFactors weights scores) := by
  unfold weighedFactors
  induction scores with
  | nil => exact .nil
  | cons entry scores ih =>
    rw [List.map_cons, scoreViolations, List.flatMap_cons, List.append_eq_nil_iff] at h
    obtain ⟨f, hf, hok⟩ | ⟨found, -, hfound, -, herror⟩ := weighFactor_cases weights entry
    · simp only [List.map_cons, hok, List.filterMap_cons, Except.toOption]
      exact .cons hf (ih h.2)
    · rw [herror] at h
      exact absurd h.1 hfound

/-- Scores that stand for factors are weighed to these, and nothing is found. -/
theorem clean_of_weighs (h : List.Forall₂ (Weighs weights) scores fs) :
    scoreViolations (scores.map (weighFactor weights)) = [] ∧
      weighedFactors weights scores = fs := by
  have hok : scores.map (weighFactor weights) = fs.map .ok := by
    induction h with
    | nil => rfl
    | cons hf _ ih => rw [List.map_cons, List.map_cons, hf.weighFactor_eq, ih]
  rw [weighedFactors, hok]
  simp [scoreViolations, List.filterMap_map, Function.comp_def, Except.toOption]

/-- Nothing is at fault exactly when the scores stand for factors that have a weight. -/
theorem scoringFaults_eq_nil :
    scoringFaults weights scores = [] ↔
      scores ≠ [] ∧ List.Forall₂ (Weighs weights) scores (weighedFactors weights scores) ∧
        ¬ totalWeight (weighedFactors weights scores) ≤ whole 0 := by
  simp only [scoringFaults, List.append_eq_nil_iff, ite_eq_right_iff, and_assoc]
  constructor
  · rintro ⟨hsome, hclean, hweight⟩
    have hscores : scores ≠ [] := fun hnil => by simp [hnil] at hsome
    have hweighs := weighs_of_clean hclean
    have hfactors : weighedFactors weights scores ≠ [] := by
      intro hnil
      rw [hnil, List.forall₂_nil_right_iff] at hweighs
      exact hscores hweighs
    exact ⟨hscores, hweighs, fun hle => by simp [hfactors, hle] at hweight⟩
  · rintro ⟨hscores, hweighs, hweight⟩
    exact ⟨fun hnil => absurd (List.isEmpty_iff.mp hnil) hscores, (clean_of_weighs hweighs).1,
      fun hzero => absurd hzero.2 hweight⟩

/-- What a request is scored as. These are the factors that it is scored by and their weighted mean.
-/
theorem compositeScore_eq_ok :
    compositeScore weights scores = .ok (fs, s) ↔
      scores ≠ [] ∧ List.Forall₂ (Weighs weights) scores fs ∧ ¬ totalWeight fs ≤ whole 0 ∧
        s.value = composite fs := by
  rw [compositeScore_eq]
  constructor
  · intro h
    split at h
    · rename_i hclean
      obtain ⟨hscores, hweighs, hweight⟩ := scoringFaults_eq_nil.mp (List.isEmpty_iff.mp hclean)
      split at h
      · rename_i s' hs
        cases h
        exact ⟨hscores, hweighs, hweight, Score.value_of_ofValue hs⟩
      · cases h
    · cases h
  · rintro ⟨hscores, hweighs, hweight, hs⟩
    obtain ⟨-, rfl⟩ := clean_of_weighs hweighs
    rw [scoringFaults_eq_nil.mpr ⟨hscores, hweighs, hweight⟩, Score.ofValue_eq_ok.mpr hs]
    rfl

end

/-! ## Assessments -/

/-- The assessment of a request: the factors of its scores, and their weighted mean. -/
structure EvaluationConfig.Scores (config : EvaluationConfig α) (request : ScoreRequest α)
    (a : Assessment α) : Prop where
  factors : List.Forall₂ (Weighs config.factorWeights) request.scores a.factors
  weight : ¬ totalWeight a.factors ≤ whole 0
  composite : a.riskScore.value = composite a.factors

/-- Factors that are submitted as they are come back the same. -/
private theorem eq_of_toInput_makes {fs gs : List (Factor α)}
    (h : List.Forall₂ FactorInput.Makes (fs.map Factor.toInput) gs) : gs = fs := by
  induction fs generalizing gs with
  | nil => exact List.forall₂_nil_left_iff.mp h
  | cons f fs ih =>
    obtain ⟨g, gs', hg, hgs, rfl⟩ := List.forall₂_cons_left_iff.mp h
    rw [hg.unique f.toInput_makes, ih hgs]

/-- The factors that are built are the ones that were scored. -/
theorem EvaluationConfig.scores_of_assess {config : EvaluationConfig α}
    {request : ScoreRequest α} {now : Instant} {a : Assessment α}
    (h : config.assess request now = .ok a) : config.Scores request a := by
  unfold assess at h
  cases hs : compositeScore config.factorWeights request.scores with
  | error report =>
    rw [hs] at h
    cases h
  | ok found =>
    obtain ⟨fs, s⟩ := found
    rw [hs] at h
    obtain ⟨-, hfactors, hweight, hcomposite⟩ := compositeScore_eq_ok.mp hs
    obtain ⟨hmakes, -, -, -⟩ := AssessmentInput.build_eq_ok.mp h
    have hsame : a.factors = fs := eq_of_toInput_makes hmakes.factors
    exact ⟨hsame ▸ hfactors, hsame ▸ hweight, hsame ▸ hmakes.score.trans hcomposite⟩

end

/-! ## Order -/

section

variable {α : Type} [Quantity α]

/-- The same factor with a score that is no smaller. -/
structure Factor.Below (f g : Factor α) : Prop where
  kind : f.kind = g.kind
  weight : f.weight = g.weight
  score : f.score.value ≤ g.score.value

/-- The same kinds with scores that are no smaller. -/
structure ScoreRequest.Below (r r' : ScoreRequest α) : Prop where
  kinds : ∀ kind, (r.score? kind).isSome = (r'.score? kind).isSome
  scores : ∀ kind x y, r.score? kind = some x → r'.score? kind = some y → x ≤ y

/-- The scores supplied are compared kind by kind. -/
theorem ScoreRequest.Below.forall₂ {r r' : ScoreRequest α} (h : r.Below r') :
    List.Forall₂ (fun e e' => e.1 = e'.1 ∧ e.2 ≤ e'.2) r.scores r'.scores := by
  unfold ScoreRequest.scores
  induction FactorType.all with
  | nil => exact .nil
  | cons kind kinds ih =>
    have hkind := h.kinds kind
    rw [List.filterMap_cons, List.filterMap_cons]
    cases hx : r.score? kind with
    | none =>
      cases hy : r'.score? kind with
      | none => exact ih
      | some y => simp [hx, hy] at hkind
    | some x =>
      cases hy : r'.score? kind with
      | none => simp [hx, hy] at hkind
      | some y => exact .cons ⟨rfl, h.scores kind x y hx hy⟩ ih

/-- Factors of greater scores are no smaller. -/
theorem below_of_weighs {weights : FactorWeights α} {scores scores' : List (FactorType × α)}
    {fs gs : List (Factor α)}
    (h : List.Forall₂ (fun e e' => e.1 = e'.1 ∧ e.2 ≤ e'.2) scores scores')
    (hf : List.Forall₂ (Weighs weights) scores fs)
    (hg : List.Forall₂ (Weighs weights) scores' gs) : List.Forall₂ Factor.Below fs gs := by
  induction h generalizing fs gs with
  | nil =>
    cases hf
    cases hg
    exact .nil
  | cons he _ ih =>
    obtain ⟨f, fs', hfirst, hrest, rfl⟩ := List.forall₂_cons_left_iff.mp hf
    obtain ⟨g, gs', hfirst', hrest', rfl⟩ := List.forall₂_cons_left_iff.mp hg
    refine .cons ⟨?_, Weight.ext ?_, ?_⟩ (ih hrest hrest')
    · rw [hfirst.kind, hfirst'.kind, he.1]
    · rw [hfirst.weight, hfirst'.weight, he.1]
    · rw [hfirst.score, hfirst'.score]
      exact he.2

private theorem totalWeight_eq_of_below {fs gs : List (Factor α)}
    (h : List.Forall₂ Factor.Below fs gs) :
    totalWeight fs = totalWeight gs := by
  have hweights : fs.map (·.weight.value) = gs.map (·.weight.value) := by
    induction h with
    | nil => rfl
    | cons hfg _ ih => rw [List.map_cons, List.map_cons, hfg.weight, ih]
  rw [totalWeight, hweights, totalWeight]

variable [MonotoneQuantity α] {fs gs : List (Factor α)}

/-- Each product grows with its score, and sums grow with their terms. -/
private theorem weightedSum_le_weightedSum (h : List.Forall₂ Factor.Below fs gs)
    (hf : IsNumber (weightedSum fs)) (hg : IsNumber (weightedSum gs)) :
    whole 0 ≤ weightedSum fs ∧ weightedSum fs ≤ weightedSum gs := by
  refine total_le_total ?_ hf hg
  rw [List.forall₂_map_left_iff, List.forall₂_map_right_iff]
  refine h.imp fun f g hfg hnf hng => ?_
  rw [← hfg.weight] at hng ⊢
  exact mul_le_mul f.weight.inRange.2.1 f.score.inRange.2.1 hfg.score hnf hng

/-- Greater scores have no smaller weighted mean. -/
theorem composite_le_composite (h : List.Forall₂ Factor.Below fs gs)
    (hweight : ¬ totalWeight fs ≤ whole 0) (hf : IsNumber (composite fs))
    (hg : IsNumber (composite gs)) : composite fs ≤ composite gs := by
  unfold composite at hf hg ⊢
  rw [← totalWeight_eq_of_below h] at hg ⊢
  -- If the clamped value is a number, so is everything that it was computed of.
  have hrf := isNumber_of_clamp hf
  have hrg := isNumber_of_clamp hg
  have hqf := isNumber_of_hundredths hrf
  have hqg := isNumber_of_hundredths hrg
  obtain ⟨hsf, hw⟩ := isNumber_of_div hqf
  have hpos : whole 0 < totalWeight fs :=
    (lt_or_le (isNumber_of_le zero_le_neg_zero).1 hw).resolve_right hweight
  obtain ⟨hsum, hsums⟩ := weightedSum_le_weightedSum h hsf (isNumber_of_div hqg).1
  obtain ⟨hmean, hmeans⟩ := div_le_div hpos hsum hsums hqf hqg
  obtain ⟨hround, hrounds⟩ := hundredths_le_hundredths hmean hmeans hrf hrg
  exact clamp_le_clamp (le_of_lt zero_lt_hundred) hround hrounds

/-- A greater number is in no lower band. -/
theorem Severity.band_le_band {x y : α} (h : x ≤ y) : band x ≤ band y := by
  show (band x).rank ≤ (band y).rank
  unfold band
  -- Split on the band of the greater number; the other is at most as high.
  by_cases hlow : y ≤ whole 60
  · rw [if_pos hlow, if_pos (MonotoneQuantity.le_trans h hlow)]
  · rw [if_neg hlow]
    by_cases hmedium : y ≤ whole 80
    · rw [if_pos hmedium, if_pos (MonotoneQuantity.le_trans h hmedium)]
      split <;> decide
    · rw [if_neg hmedium]
      split
      · decide
      · split <;> decide

/-- A greater score has no smaller severity. -/
theorem Score.severity_le {s t : Score α} (h : s.value ≤ t.value) : s.severity ≤ t.severity :=
  Severity.band_le_band h

end

end PolicyDesk
