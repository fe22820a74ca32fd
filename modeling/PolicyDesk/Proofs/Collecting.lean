import PolicyDesk.Proofs.Assessment.Violations
import PolicyDesk.Text

/-!
# Violations gathered by a check

A check as a run over a collector of violations, and the checks of submissions as such runs.
-/

namespace PolicyDesk

/-! ## Gathering violations

A check that goes on after a fault pushes what it finds to a collector, beside what it comes to.

- **Checks** (`Collecting`): the steps of a check are `push`, `pushIf` and `note`, one after the
  other or along a list.
- **Runs** (`Collecting.Adds`): what a check comes to, and the violations that it adds. Both are the
  same whatever was gathered before, and that stays where it is; each way of putting checks together
  keeps this (`Adds.bind`, `Adds.forM`, `Adds.filterMapM`).
- **Results** (`Collector.AgreesWith`): a success gathered nothing on the way to it, and a failure
  is the report of what was gathered and is not empty. -/

/-- The violations gathered so far, in the order in which they were found. Nothing is ever taken out
of it. -/
structure Collector where
  violations : List Violation
  deriving DecidableEq, Repr

namespace Collector

def empty : Collector := ⟨[]⟩

def push (c : Collector) (field message : String) : Collector :=
  ⟨c.violations ++ [⟨field, message⟩]⟩

/-- The report of all that was gathered. The report is valid exactly when nothing was gathered. -/
def finish (c : Collector) : Report := ⟨c.violations⟩

theorem finish_valid_iff {c : Collector} : c.finish.valid = true ↔ c.violations = [] :=
  List.isEmpty_iff

/-- A success gathered nothing; a failure is the report of what was gathered, of at least one
violation. So neither can a refusal be empty, nor a fault be passed over. -/
structure AgreesWith {β : Type} (c : Collector) (result : Except Report β) : Prop where
  passed : ∀ b, result = .ok b → c.violations = []
  refused : ∀ report, result = .error report →
    report = c.finish ∧ report.valid = false ∧ report.violations ≠ []

theorem agreesWith_ok {β : Type} {c : Collector} {b : β} (h : c.violations = []) :
    c.AgreesWith (.ok b : Except Report β) where
  passed _ _ := h
  refused _ hr := nomatch hr

theorem agreesWith_error {β : Type} {c : Collector} (h : c.violations ≠ []) :
    c.AgreesWith (.error c.finish : Except Report β) where
  passed _ hb := nomatch hb
  refused report hr := by
    obtain rfl := Except.error.inj hr
    exact ⟨rfl, Bool.eq_false_iff.mpr (mt finish_valid_iff.mp h), h⟩

end Collector

/-- A check that gathers violations on its way. It goes on after a fault, unlike a check in
`Except`. -/
abbrev Collecting (β : Type) := StateM Collector β

namespace Collecting

variable {β γ δ ε : Type}

/-! ### Checks -/

/-- Reports a violation; the check goes on. -/
def push (field message : String) : Collecting Unit := modify (·.push field message)

/-- Reports a violation where there is a fault. -/
def pushIf (fault : Prop) [Decidable fault] (field message : String) : Collecting Unit :=
  if fault then push field message else pure ()

/-- What a single check gives; its failure is pushed. What it comes to tells whether it failed. -/
def note (field : String) (message : ε → String) : Except ε β → Collecting (Option β)
  | .ok b => pure (some b)
  | .error e => do
    push field (message e)
    return none

/-- What a check gathers when nothing was gathered before. -/
def gathered (p : Collecting β) : Collector := (p.run .empty).2

/-- The check comes to nothing exactly when it adds a violation, and what was gathered before stays
in its place. So a caller who looks at what it comes to never misses a fault, and never finds one
without a text. -/
def FailsLoudly (p : Collecting (Option β)) : Prop :=
  ∀ c, ∃ added, (p.run c).2.violations = c.violations ++ added ∧
    ((p.run c).1 = none ↔ added ≠ [])

/-! ### Runs -/

/-- Whatever was gathered before, the check comes to `b` and adds the violations found. A check that
depended on what it finds in the collector would have no such `b`. -/
def Adds (p : Collecting β) (b : β) (found : List Violation) : Prop :=
  ∀ c, p.run c = (b, ⟨c.violations ++ found⟩)

theorem Adds.gathered_eq {p : Collecting β} {b : β} {found : List Violation}
    (h : p.Adds b found) : p.gathered = ⟨found⟩ := by
  rw [gathered, h, Collector.empty, List.nil_append]

private theorem Adds.failsLoudly {p : Collecting (Option β)} {b : Option β} {found : List Violation}
    (h : p.Adds b found) (hfound : b = none ↔ found ≠ []) : p.FailsLoudly := by
  intro c
  refine ⟨found, ?_, ?_⟩
  · rw [h]
  · rw [h]
    exact hfound

theorem adds_pure (b : β) : Adds (pure b) b [] := by
  intro c
  rw [List.append_nil]
  rfl

theorem adds_push (field message : String) : (push field message).Adds () [⟨field, message⟩] :=
  fun _ => rfl

/-- A check after another one adds its violations after those of the other one. The second check may
depend on what the first came to. -/
theorem Adds.bind {p : Collecting β} {b : β} {q : β → Collecting γ} {d : γ}
    {found rest : List Violation} (hp : p.Adds b found) (hq : (q b).Adds d rest) :
    Adds (p >>= q) d (found ++ rest) := by
  intro c
  have hrun : (p >>= q).run c = (q (p.run c).1).run (p.run c).2 := rfl
  rw [hrun, hp, hq, List.append_assoc]

/-- What a check comes to may be changed without adding anything. -/
theorem Adds.map {p : Collecting β} {b : β} {found : List Violation} (hp : p.Adds b found)
    (f : β → γ) : Adds (do return f (← p)) (f b) found := by
  have h : Adds (p >>= fun b => pure (f b)) (f b) (found ++ []) := hp.bind (adds_pure (f b))
  rwa [List.append_nil] at h

theorem adds_pushIf (fault : Prop) [Decidable fault] (field message : String) :
    (pushIf fault field message).Adds () (if fault then [⟨field, message⟩] else []) := by
  unfold pushIf
  split
  · exact adds_push field message
  · exact adds_pure ()

theorem adds_note (field : String) (message : ε → String) (r : Except ε β) :
    (note field message r).Adds r.toOption (Report.note field message r) := by
  cases r with
  | ok b => exact adds_pure (some b)
  | error e => exact (adds_push field (message e)).map fun _ => none

/-! ### Lists -/

theorem Adds.forM {f : γ → Collecting Unit} {found : γ → List Violation}
    (h : ∀ x, (f x).Adds () (found x)) (l : List γ) : Adds (l.forM f) () (l.flatMap found) := by
  induction l with
  | nil => exact adds_pure ()
  | cons x l ih => exact (h x).bind ih

theorem Adds.filterMapM {f : γ → Collecting (Option δ)} {g : γ → Option δ}
    {found : γ → List Violation} (h : ∀ x, (f x).Adds (g x) (found x)) (l : List γ) :
    Adds (l.filterMapM f) (l.filterMap g) (l.flatMap found) := by
  induction l with
  | nil => exact adds_pure []
  | cons x l ih =>
    rw [List.filterMapM_cons, List.filterMap_cons, List.flatMap_cons]
    refine (h x).bind ?_
    cases g x with
    | none => exact ih
    | some d => exact ih.map (d :: ·)

end Collecting

/-! ## What the check of a submission gathers

The checks of a submitted factor and of a submitted assessment as runs over one collector.

- **Factors** (`FactorInput.collect`): the run adds the violations of `FactorInput.read` and comes
  to the same factor (`FactorInput.collect_adds`), so it comes to none exactly when it adds some
  (`FactorInput.collect_failsLoudly`).
- **The pass** (`takeFactor`): the factors are checked over the collector of the submission, and the
  duplicates among them reported to it (`FactorScan.pass_adds`).
- **Assessments** (`AssessmentInput.collect`): what the run gathers is the report on the submission
  (`AssessmentInput.gathered_collect`).
- **Results**: a factor or an assessment agrees with what was gathered, though whether it is made is
  not read off the collector alone (`FactorInput.agreesWith_toFactor`,
  `AssessmentInput.agreesWith_build`). -/

section

open Collecting

variable {α : Type} [Quantity α]

/-! ### Factors -/

/-- The factor of a kind, a score and a weight, when all of them passed and so did the severity. It
looks at what the four checks came to and not at the collector. -/
def Factor.ofChecked? (kind : Option FactorType) (score : Option (Score α))
    (weight : Option (Weight α)) (severity : Option Unit) : Option (Factor α) := do
  let kind ← kind
  let score ← score
  let weight ← weight
  severity
  return .graded kind score weight

namespace FactorInput

/-- The check of a submitted factor, its violations pushed one after the other. All four checks are
made, whichever of them fail. -/
def collect (lead : String) (raw : FactorInput α) : Collecting (Option (Factor α)) := do
  let kind ← note (lead ++ "type") (·.message) (FactorType.parse raw.kind)
  let score ← note (lead ++ "score") (·.message) (Score.ofValue raw.score)
  let weight ← note (lead ++ "weight") (·.message) (Weight.ofValue raw.weight)
  let severity ← note (lead ++ "severity") id (checkSeverity raw.severity score)
  return Factor.ofChecked? kind score weight severity

theorem collect_adds (lead : String) (raw : FactorInput α) :
    (raw.collect lead).Adds (raw.read lead).2 (raw.read lead).1 := by
  have hfactor : (raw.read lead).2 =
      Factor.ofChecked? (FactorType.parse raw.kind).toOption (Score.ofValue raw.score).toOption
        (Weight.ofValue raw.weight).toOption
        (checkSeverity raw.severity (Score.ofValue raw.score).toOption).toOption := by
    unfold read
    generalize FactorType.parse raw.kind = kind
    generalize Score.ofValue raw.score = score
    generalize Weight.ofValue raw.weight = weight
    dsimp only
    generalize checkSeverity raw.severity score.toOption = severity
    cases kind <;> cases score <;> cases weight <;> cases severity <;> rfl
  rw [hfactor]
  unfold collect read
  simp only [List.append_assoc]
  refine (adds_note _ _ _).bind ((adds_note _ _ _).bind ((adds_note _ _ _).bind ?_))
  exact (adds_note _ _ _).map _

/-- No factor is read exactly when there are violations. -/
private theorem read_eq_none_iff (lead : String) (raw : FactorInput α) :
    (raw.read lead).2 = none ↔ (raw.read lead).1 ≠ [] := by
  obtain ⟨f, -, hread⟩ | ⟨found, -, hfound, hread⟩ := raw.read_cases lead
  · rw [hread]
    exact iff_of_false (fun h => nomatch h) (fun h => h rfl)
  · rw [hread]
    exact iff_of_true rfl hfound

theorem collect_failsLoudly (lead : String) (raw : FactorInput α) :
    (raw.collect lead).FailsLoudly :=
  (raw.collect_adds lead).failsLoudly (raw.read_eq_none_iff lead)

/-- A factor alone is decided by what its check comes to, and not by what it gathered. -/
theorem agreesWith_toFactor (raw : FactorInput α) :
    (raw.collect "").gathered.AgreesWith raw.toFactor := by
  rw [(raw.collect_adds "").gathered_eq]
  unfold toFactor
  obtain ⟨f, -, hread⟩ | ⟨found, -, hfound, hread⟩ := raw.read_cases ""
  · rw [hread]
    exact Collector.agreesWith_ok rfl
  · rw [hread]
    exact Collector.agreesWith_error hfound

end FactorInput

/-- A factor of typed parts only has its weight checked. -/
theorem Factor.agreesWith_make (kind : FactorType) (score : Score α) (weight : α) :
    (note "weight" (·.message) (Weight.ofValue weight)).gathered.AgreesWith
      (Factor.make kind score weight) := by
  rw [(adds_note _ _ _).gathered_eq, make]
  cases Weight.ofValue weight with
  | ok w => exact Collector.agreesWith_ok rfl
  | error e => exact Collector.agreesWith_error (List.cons_ne_nil _ _)

/-! ### The pass over the factors -/

/-- Takes in the next factor of a submission, after the factors and the kinds accepted so far. A
factor that failed is left out of both lists; a duplicate is reported and kept. -/
def takeFactor (taken : List (Factor α) × List FactorType) (entry : FactorInput α × Nat) :
    Collecting (List (Factor α) × List FactorType) := do
  match ← entry.1.collect (FactorScan.lead entry.2) with
  | none => return taken
  | some factor =>
    if factor.kind ∈ taken.2 then
      push (FactorScan.lead entry.2 ++ "type") ("duplicate risk factor " ++ factor.kind.code)
      return (taken.1 ++ [factor], taken.2)
    else
      return (taken.1 ++ [factor], taken.2 ++ [factor.kind])

namespace FactorScan

/-- The factors and the kinds accepted. -/
def taken (scan : FactorScan α) : List (Factor α) × List FactorType := (scan.factors, scan.seen)

/-- A step of the pass adds to the collector what it adds to the violations of the scan. The
collector may hold other violations before, which the scan does not know of. -/
private theorem takeFactor_adds (scan : FactorScan α) (entry : FactorInput α × Nat) :
    ∃ added, (scan.step entry).violations = scan.violations ++ added ∧
      (takeFactor scan.taken entry).Adds (scan.step entry).taken added := by
  obtain ⟨raw, index⟩ := entry
  have hcollect := raw.collect_adds (lead index)
  unfold takeFactor step
  dsimp only
  cases hread : raw.read (lead index) with
  | mk found factor? =>
    rw [hread] at hcollect
    cases factor? with
    | none =>
      refine ⟨found ++ [], by rw [List.append_nil], hcollect.bind (adds_pure scan.taken)⟩
    | some factor =>
      refine ⟨_, List.append_assoc _ _ _, hcollect.bind ?_⟩
      -- A kind that was seen before costs one violation more, and the factor is taken in either
      -- way.
      by_cases hseen : factor.kind ∈ scan.seen
      · simp only [taken, hseen, if_true, decide_true]
        exact (adds_push _ _).map _
      · simp only [taken, hseen, if_false, decide_false, Bool.false_eq_true]
        exact adds_pure _

/-- **The pass.** Over one collector it adds the violations of the scan, in their order. Scan and
run also agree on the factors and the kinds accepted. -/
theorem pass_adds (raws : List (FactorInput α)) :
    (raws.zipIdx.foldlM takeFactor ([], [])).Adds (ofInputs raws).taken
      (ofInputs raws).violations := by
  -- The scan is that of the factors so far, so they grow at the end.
  induction raws using List.reverseRecOn with
  | nil => exact adds_pure _
  | append_singleton raws raw ih =>
    obtain ⟨added, hadded, hstep⟩ := (ofInputs raws).takeFactor_adds (raw, raws.length)
    rw [List.zipIdx_append, List.foldlM_append, ofInputs_append_one, hadded]
    refine ih.bind ?_
    simpa using hstep

end FactorScan

/-! ### Assessments -/

namespace AssessmentInput

/-- The check of a submitted assessment: its score, if it is one, and the factors accepted. The
steps are those of the report, in its order. -/
def collect (input : AssessmentInput α) : Collecting (Option (Score α) × List (Factor α)) := do
  pushIf (Text.isBlank input.policyId) "policy_id" "policy id is required"
  pushIf (Text.isBlank input.assessedBy) "assessed_by" "assessor is required"
  let score ← note "risk_score" (·.message) (Score.ofValue input.riskScore)
  let _ ← note "severity" id (checkSeverity input.severity score)
  pushIf input.factors.isEmpty "factors" "a complete assessment needs at least one risk factor"
  let (factors, seen) ← input.factors.zipIdx.foldlM takeFactor ([], [])
  pushIf ((factors.length = input.factors.length ∧ seen.length = FactorType.all.length) ∧
      Quantity.differBy weightTolerance (totalWeight factors) (Quantity.whole 1)) "factors"
    ("factor weights must sum to 1.0, found " ++ Quantity.fixed 4 (totalWeight factors))
  return (score, factors)

theorem collect_adds (input : AssessmentInput α) :
    input.collect.Adds
      ((Score.ofValue input.riskScore).toOption, (FactorScan.ofInputs input.factors).factors)
      input.validate.violations := by
  have hpass := FactorScan.pass_adds input.factors
  rw [violations_validate]
  unfold collect
  generalize FactorScan.ofInputs input.factors = scan at hpass
  simp only [List.append_assoc]
  refine (adds_pushIf _ _ _).bind ((adds_pushIf _ _ _).bind ((adds_note _ _ _).bind
    ((adds_note _ _ _).bind ((adds_pushIf _ _ _).bind (hpass.bind ?_)))))
  have hpush := adds_pushIf ((scan.factors.length = input.factors.length ∧
      scan.seen.length = FactorType.all.length) ∧
    Quantity.differBy weightTolerance (totalWeight scan.factors) (Quantity.whole 1)) "factors"
    ("factor weights must sum to 1.0, found " ++ Quantity.fixed 4 (totalWeight scan.factors))
  -- The sum of the weights is looked at only when the set is complete.
  rw [ite_and] at hpush
  exact hpush.map _

/-- What the check gathers is the report on the submission. A caller who validates first is told
what a submission would be told. -/
theorem gathered_collect (input : AssessmentInput α) :
    input.collect.gathered = ⟨input.validate.violations⟩ :=
  input.collect_adds.gathered_eq

theorem agreesWith_build (input : AssessmentInput α) (now : Instant) :
    input.collect.gathered.AgreesWith (input.build now) := by
  rw [gathered_collect]
  obtain ⟨hnone, a, ha⟩ | ⟨hsome, herror⟩ := input.build_cases now
  · rw [ha]
    exact Collector.agreesWith_ok hnone
  · rw [herror]
    exact Collector.agreesWith_error hsome

end AssessmentInput

end

end PolicyDesk
