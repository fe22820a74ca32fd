import Mathlib.Data.List.Forall2
import PolicyDesk.Assessment
import PolicyDesk.Proofs.Text

/-!
# Submitted factors

Which submitted factors are accepted, each alone and one after the other.
-/

namespace PolicyDesk

/-! ## What an accepted factor is

- **Bands** (`Severity.band`): the severity of a number, and what a declared severity must name
  (`Declares`).
- **Makes** (`FactorInput.Makes`): the factor that a submitted one stands for. A submitted factor is
  read without a violation exactly when there is such a factor (`FactorInput.read_cases`), and that
  is so exactly when each of its fields is as it must be (`FactorInput.makes_iff`). -/

section

open Text (Names)

variable {α : Type} [Quantity α]

/-! ### Severities -/

/-- The severity of a number: LOW up to 60, MEDIUM up to 80, HIGH above. It is asked of any number,
in range or not. -/
def Severity.band (x : α) : Severity :=
  if x ≤ Quantity.whole 60 then .low
  else if x ≤ Quantity.whole 80 then .medium
  else .high

theorem Score.severity_eq_band (s : Score α) : s.severity = Severity.band s.value := rfl

theorem Severity.le_refl (s : Severity) : s ≤ s := Nat.le_refl s.rank

theorem Severity.le_trans {s t u : Severity} (h : s ≤ t) (h' : t ≤ u) : s ≤ u := Nat.le_trans h h'

theorem Severity.eq_high_of_le {s t : Severity} (h : s ≤ t) (hs : s = .high) : t = .high := by
  subst hs
  cases t with
  | high => rfl
  | low => exact absurd h (by decide)
  | medium => exact absurd h (by decide)

theorem Severity.mem_all (s : Severity) : s ∈ Severity.all := by cases s <;> simp [Severity.all]

theorem Severity.eq_of_sameCode (s t : Severity) (h : Text.sameCode s.code t.code = true) :
    s = t := by
  cases s <;> cases t <;> first | rfl | exact absurd h (by decide)

theorem Severity.parse_eq_ok {raw : String} {s : Severity} :
    Severity.parse raw = .ok s ↔ Names raw s.code := by
  rw [← Text.ofCode?_eq_some Severity.mem_all Severity.eq_of_sameCode, Severity.parse]
  cases Text.ofCode? Severity.all Severity.code raw <;> simp

theorem FactorType.eq_of_sameCode (s t : FactorType) (h : Text.sameCode s.code t.code = true) :
    s = t := by
  cases s <;> cases t <;> first | rfl | exact absurd h (by decide)

theorem FactorType.parse_eq_ok {raw : String} {t : FactorType} :
    FactorType.parse raw = .ok t ↔ Names raw t.code := by
  rw [← Text.ofCode?_eq_some FactorType.mem_all FactorType.eq_of_sameCode, FactorType.parse]
  cases Text.ofCode? FactorType.all FactorType.code raw <;> simp

/-- A declared severity names the one given; none declared is right for all. A text that is no
severity declares none, and so is wrong for every score. -/
def Declares (declared : Option String) (s : Severity) : Prop :=
  ∀ raw, declared = some raw → Names raw s.code

theorem checkSeverity_eq_ok {declared : Option String} {score : Score α} :
    checkSeverity declared (some score) = .ok () ↔ Declares declared score.severity := by
  cases declared with
  | none => exact ⟨fun _ _ h => (nomatch h), fun _ => rfl⟩
  | some raw =>
    have hraw : Declares (some raw) score.severity ↔ Severity.parse raw = .ok score.severity := by
      rw [Severity.parse_eq_ok]
      exact ⟨fun h => h raw rfl, fun h _ heq => Option.some.inj heq ▸ h⟩
    rw [hraw]
    unfold checkSeverity
    dsimp only
    cases hparse : Severity.parse raw with
    | error e => simp
    | ok s =>
      rw [Except.ok.injEq]
      dsimp only
      split
      · rename_i hs
        exact iff_of_true rfl hs
      · rename_i hs
        exact iff_of_false (fun h => nomatch h) hs

theorem Score.exists_value {x : α} : (∃ s : Score α, s.value = x) ↔ Score.InRange x :=
  ⟨fun ⟨s, h⟩ => h ▸ s.inRange, fun h => ⟨⟨x, h⟩, rfl⟩⟩

theorem Score.ofValue_eq_ok {x : α} {s : Score α} : Score.ofValue x = .ok s ↔ s.value = x :=
  ⟨value_of_ofValue, fun h => h ▸ ofValue_value s⟩

theorem Weight.exists_value {x : α} : (∃ w : Weight α, w.value = x) ↔ Weight.InRange x :=
  ⟨fun ⟨w, h⟩ => h ▸ w.inRange, fun h => ⟨⟨x, h⟩, rfl⟩⟩

theorem Weight.ofValue_eq_ok {x : α} {w : Weight α} : Weight.ofValue x = .ok w ↔ w.value = x :=
  ⟨value_of_ofValue, fun h => h ▸ ofValue_value w⟩

/-! ### Submitted factors -/

namespace FactorInput

/-- The factor that a submitted one stands for. There is one at most (`Makes.unique`), since texts
that name two kinds are ruled out by their codes. -/
structure Makes (raw : FactorInput α) (f : Factor α) : Prop where
  kind : Names raw.kind f.kind.code
  score : f.score.value = raw.score
  weight : f.weight.value = raw.weight
  severity : Declares raw.severity (Severity.band raw.score)

/-- Each field of a submitted factor is as it must be. The fields are judged one by one; the
severity alone looks at another field. -/
structure Admissible (raw : FactorInput α) : Prop where
  kind : ∃ t : FactorType, Names raw.kind t.code
  score : Score.InRange raw.score
  weight : Weight.InRange raw.weight
  severity : Declares raw.severity (Severity.band raw.score)

theorem makes_iff {raw : FactorInput α} : (∃ f, raw.Makes f) ↔ raw.Admissible := by
  constructor
  · rintro ⟨f, h⟩
    exact ⟨⟨f.kind, h.kind⟩, Score.exists_value.mp ⟨f.score, h.score⟩,
      Weight.exists_value.mp ⟨f.weight, h.weight⟩, h.severity⟩
  · rintro ⟨⟨kind, hkind⟩, hscore, hweight, hseverity⟩
    exact ⟨.graded kind ⟨raw.score, hscore⟩ ⟨raw.weight, hweight⟩, hkind, rfl, rfl, hseverity⟩

theorem Makes.unique {raw : FactorInput α} {f g : Factor α} (hf : raw.Makes f) (hg : raw.Makes g) :
    f = g := by
  have hkind : f.kind = g.kind := FactorType.eq_of_sameCode _ _ (hf.kind.sameCode hg.kind)
  have hscore : f.score = g.score := Score.ext (hf.score.trans hg.score.symm)
  have hweight : f.weight = g.weight := Weight.ext (hf.weight.trans hg.weight.symm)
  exact Factor.ext hkind hscore hweight

/-- **Reading a factor.** Either there are no violations and it is made, or there are some and it
stands for no factor. The lead makes no difference to which of the two it is. -/
theorem read_cases (lead : String) (raw : FactorInput α) :
    (∃ f, raw.Makes f ∧ raw.read lead = ([], some f)) ∨
      ∃ found, (∀ f, ¬ raw.Makes f) ∧ found ≠ [] ∧ raw.read lead = (found, none) := by
  unfold read
  cases hk : FactorType.parse raw.kind with
  | error e =>
    refine .inr ⟨_, fun f hf => ?_, by simp [Report.note], rfl⟩
    rw [FactorType.parse_eq_ok.mpr hf.kind] at hk
    cases hk
  | ok kind =>
    cases hs : Score.ofValue raw.score with
    | error e =>
      refine .inr ⟨_, fun f hf => ?_, by simp [Report.note], rfl⟩
      rw [Score.ofValue_eq_ok.mpr hf.score] at hs
      cases hs
    | ok score =>
      cases hw : Weight.ofValue raw.weight with
      | error e =>
        refine .inr ⟨_, fun f hf => ?_, by simp [Report.note], rfl⟩
        rw [Weight.ofValue_eq_ok.mpr hf.weight] at hw
        cases hw
      | ok weight =>
        -- All three parts are there: only the declared severity can still be wrong.
        have hscore := Score.ofValue_eq_ok.mp hs
        have hband : score.severity = Severity.band raw.score := by
          rw [Score.severity_eq_band, hscore]
        cases hd : checkSeverity raw.severity (some score) with
        | error e =>
          refine .inr ⟨[⟨lead ++ "severity", e⟩], fun f hf => ?_, by simp, ?_⟩
          · rw [checkSeverity_eq_ok.mpr (hband ▸ hf.severity)] at hd
            cases hd
          · simp [Except.toOption, hd, Report.note]
        | ok u =>
          refine .inl ⟨.graded kind score weight, ⟨FactorType.parse_eq_ok.mp hk, hscore,
            Weight.ofValue_eq_ok.mp hw, hband ▸ checkSeverity_eq_ok.mp hd⟩, ?_⟩
          simp [Except.toOption, hd, Report.note]

end FactorInput

end

/-! ## What the pass over the factors gathers

- **One step** (`FactorScan.step_cases`): a submitted factor is accepted, or violations are added.
  It is accepted when it stands for a factor of a kind that was not seen before.
- **The pass** (`FactorScan.ofInputs_clean_iff`): there are no violations exactly when every
  submitted factor stands for one and no two of them are of a kind, and the pass has then gathered
  these factors in their order (`FactorScan.ofInputs_of_makes`). -/

section

variable {α : Type} [Quantity α]

namespace FactorScan

/-- The scan with one more factor accepted, of a new kind. This is the one way in which a step adds
no violation. -/
def accept (scan : FactorScan α) (f : Factor α) : FactorScan α :=
  ⟨scan.violations, scan.factors ++ [f], scan.seen ++ [f.kind]⟩

/-- **One step.** The next factor is accepted, or it stands for none of a new kind and violations
are added. A duplicate counts to the second case, although its factor is kept. -/
theorem step_cases (scan : FactorScan α) (raw : FactorInput α) (index : Nat) :
    (∃ f, raw.Makes f ∧ f.kind ∉ scan.seen ∧ step scan (raw, index) = scan.accept f) ∨
      (∀ f, raw.Makes f → f.kind ∈ scan.seen) ∧
        ∃ found, found ≠ [] ∧ (step scan (raw, index)).violations = scan.violations ++ found := by
  obtain ⟨f, hmakes, hread⟩ | ⟨found, hnone, hfound, hread⟩ := raw.read_cases (lead index)
  · by_cases hseen : f.kind ∈ scan.seen
    · refine .inr ⟨fun g hg => hg.unique hmakes ▸ hseen, ?_⟩
      exact ⟨[⟨lead index ++ "type", "duplicate risk factor " ++ f.kind.code⟩],
        List.cons_ne_nil _ _, by simp [step, hread, hseen]⟩
    · exact .inl ⟨f, hmakes, hseen, by simp [step, hread, hseen, accept]⟩
  · exact .inr ⟨fun f hf => absurd hf (hnone f), found, hfound, by simp only [step, hread]⟩

/-- A step keeps the violations found before it. So a pass that ends without one never had one. -/
private theorem violations_prefix_step (scan : FactorScan α) (entry : FactorInput α × Nat) :
    scan.violations <+: (step scan entry).violations := by
  obtain ⟨raw, index⟩ := entry
  obtain ⟨f, -, -, hstep⟩ | ⟨-, found, -, hstep⟩ := step_cases scan raw index
  · rw [hstep]
    exact List.prefix_refl scan.violations
  · exact ⟨found, hstep.symm⟩

private theorem violations_prefix_foldl (entries : List (FactorInput α × Nat))
    (scan : FactorScan α) :
    scan.violations <+: (entries.foldl step scan).violations := by
  induction entries generalizing scan with
  | nil => exact List.prefix_refl _
  | cons entry entries ih =>
    rw [List.foldl_cons]
    exact (violations_prefix_step scan entry).trans (ih (step scan entry))

/-- Submitted factors that stand for factors of new and different kinds are all accepted. Their
kinds are new to the scan and to each other. -/
private theorem foldl_of_makes {raws : List (FactorInput α)} {fs : List (Factor α)}
    (hmakes : List.Forall₂ FactorInput.Makes raws fs) (scan : FactorScan α) (index : Nat)
    (hkinds : (scan.seen ++ fs.map (·.kind)).Nodup) :
    (raws.zipIdx index).foldl step scan =
      ⟨scan.violations, scan.factors ++ fs, scan.seen ++ fs.map (·.kind)⟩ := by
  -- The scan varies: what it has seen so far decides which kinds are new.
  induction hmakes generalizing scan index with
  | nil => simp
  | @cons raw f raws fs hraw _ ih =>
    have hnew : f.kind ∉ scan.seen := fun hseen =>
      (List.nodup_append.mp hkinds).2.2 f.kind hseen f.kind (by simp) rfl
    obtain ⟨g, hg, -, hstep⟩ | ⟨hold, -⟩ := step_cases scan raw index
    · obtain rfl := hg.unique hraw
      rw [List.zipIdx_cons, List.foldl_cons, hstep, ih (scan.accept g) _ (by simpa [accept])]
      simp [accept]
    · exact absurd (hold f hraw) hnew

/-- A pass without violations has accepted every factor. Their kinds are then new to the scan and to
each other. -/
private theorem makes_of_clean (raws : List (FactorInput α)) (scan : FactorScan α) (index : Nat)
    (hseen : scan.seen.Nodup)
    (hclean : ((raws.zipIdx index).foldl step scan).violations = []) :
    ∃ fs, List.Forall₂ FactorInput.Makes raws fs ∧ (scan.seen ++ fs.map (·.kind)).Nodup := by
  induction raws generalizing scan index with
  | nil => exact ⟨[], .nil, by simpa using hseen⟩
  | cons raw raws ih =>
    rw [List.zipIdx_cons, List.foldl_cons] at hclean
    obtain ⟨f, hf, hnew, hstep⟩ | ⟨-, found, hfound, hstep⟩ := step_cases scan raw index
    · have hseen' : (scan.accept f).seen.Nodup := by
        simpa [accept, List.nodup_append] using ⟨hseen, fun k hk heq => hnew (heq ▸ hk)⟩
      obtain ⟨fs, hmakes, hkinds⟩ := ih (scan.accept f) (index + 1) hseen' (hstep ▸ hclean)
      exact ⟨f :: fs, .cons hf hmakes, by simpa [accept] using hkinds⟩
    · -- What was found here is still there at the end.
      have hprefix := violations_prefix_foldl (raws.zipIdx (index + 1)) (step scan (raw, index))
      rw [hclean, List.prefix_nil, hstep, List.append_eq_nil_iff] at hprefix
      exact absurd hprefix.2 hfound

theorem ofInputs_of_makes {raws : List (FactorInput α)} {fs : List (Factor α)}
    (hmakes : List.Forall₂ FactorInput.Makes raws fs) (hkinds : (fs.map (·.kind)).Nodup) :
    ofInputs raws = ⟨[], fs, fs.map (·.kind)⟩ := by
  rw [ofInputs, foldl_of_makes hmakes start 0 (by simpa [start] using hkinds)]
  simp [start]

/-- **The pass.** It finds no violation exactly when every submitted factor stands for one and no
two are of a kind. The two directions are `foldl_of_makes` and `makes_of_clean`, from an empty scan.
-/
theorem ofInputs_clean_iff {raws : List (FactorInput α)} :
    (ofInputs raws).violations = [] ↔
      ∃ fs, List.Forall₂ FactorInput.Makes raws fs ∧ (fs.map (·.kind)).Nodup := by
  constructor
  · intro hclean
    simpa [start] using makes_of_clean raws start 0 List.nodup_nil hclean
  · rintro ⟨fs, hmakes, hkinds⟩
    rw [ofInputs_of_makes hmakes hkinds]

end FactorScan

end

end PolicyDesk
