import PolicyDesk.Proofs.Assessment.Admissible
import PolicyDesk.Proofs.Assessment.Factors
import PolicyDesk.Proofs.Json
import PolicyDesk.Wire

/-!
# Severities in JSON documents

What a declared severity must be for a document to be read, and what is written as one.
-/

namespace PolicyDesk

/-! ## Assessments read back from JSON

- **Places** (`Json.put`): a JSON value with another value put in a place.
- **Declared severities** (`Assessment.jsonWith`): the JSON of an assessment but for its severity
  and those of its factors, which are any texts. It is decoded exactly when each text names the
  severity of the score beside it, and then to the assessment (`Assessment.ofJson_jsonWith`).
- **Reloading** (`Assessment.reloads`): the JSON of an assessment is decoded to the assessment, and
  with one severity replaced only when the new text names the severity that was there. -/

section

open Text (Names)

/-! ### Places -/

/-- A step into a JSON value. -/
inductive Json.Step
  | member (name : String)
  | item (index : Nat)

/-- The JSON value with a value put where the steps lead to. Members of the name are all replaced,
and where the steps lead nowhere nothing is. -/
def Json.put (json value : Json) : List Json.Step → Json
  | [] => value
  | .member name :: steps =>
    match json with
    | .obj members => .obj (members.map fun (key, json) =>
      (key, if key = some name then put json value steps else json))
    | json => json
  | .item index :: steps =>
    match json with
    | .arr items => .arr (items.modify index fun json => put json value steps)
    | json => json

/-! ### Decoded fields -/

theorem Decoder.float_ofFloat {x : Float} (h : x.isFinite = true) :
    Decoder.float (Json.ofFloat x) = .ok x := by
  rw [Json.ofFloat, if_pos h, Decoder.float]

theorem Decoder.orNull_text (s : String) :
    Decoder.orNull Decoder.text (.str s) = .ok (some s) := rfl

private theorem Decoder.orNull_instant {t : Instant} (h : Instant.read? t.text = some t) :
    Decoder.orNull Decoder.instant t.toJson = .ok (some t) := by
  simp only [Decoder.orNull, Instant.toJson, Decoder.instant, h]
  rfl

/-! ### Factors -/

namespace Factor

/-- The JSON of a factor but for its severity. -/
def jsonWith (f : Factor Float) (severity : String) : Json :=
  .record
    [("type", f.kind.toJson), ("score", f.score.toJson), ("weight", .ofFloat f.weight.value),
     ("severity", .str severity)]

theorem toJson_eq_jsonWith (f : Factor Float) : f.toJson = f.jsonWith f.severity.code := rfl

theorem input_ofJson_jsonWith (f : Factor Float) (severity : String) :
    FactorInput.ofJson (f.jsonWith severity) = .ok (f.declare severity) := by
  have hscore := Decoder.float_ofFloat f.score.inRange.1
  have hweight := Decoder.float_ofFloat f.weight.inRange.1
  exact (Shape.Reads.of FactorInput.mk
    |>.present "type" (by simp) (rfl : Decoder.text (.str f.kind.code) = _)
    |>.present "score" (by simp) hscore
    |>.present "weight" (by simp) hweight
    |>.present "severity" (by simp) (Decoder.orNull_text severity)).decode

end Factor

/-! ### Assessments -/

namespace Assessment

/-- The JSON of an assessment but for its severity and those of its factors. Only the first so many
texts are written. -/
def jsonWith (a : Assessment Float) (severity : String) (severities : Nat → String) : Json :=
  .record
    [("policy_id", .str a.policyId), ("risk_score", a.riskScore.toJson),
     ("severity", .str severity),
     ("factors", .arr (a.factors.mapIdx fun i f => f.jsonWith (severities i))),
     ("assessed_by", .str a.assessedBy), ("assessment_date", a.assessmentDate.toJson)]

theorem input_ofJson_jsonWith {a : Assessment Float}
    (hdate : Instant.read? a.assessmentDate.text = some a.assessmentDate) (severity : String)
    (severities : Nat → String) :
    AssessmentInput.ofJson (a.jsonWith severity severities) =
      .ok (a.resubmit severity severities) := by
  have hscore := Decoder.float_ofFloat a.riskScore.inRange.1
  have hfactors : Decoder.list FactorInput.ofJson
      (.arr (a.factors.mapIdx fun i f => f.jsonWith (severities i))) =
      .ok (a.factors.mapIdx fun i f => f.declare (severities i)) := by
    refine Decoder.list_eq_ok (List.forall₂_iff_get.mpr ⟨by simp, fun i hi hi' => ?_⟩)
    simpa using Factor.input_ofJson_jsonWith _ _
  exact (Shape.Reads.of AssessmentInput.mk
    |>.present "policy_id" (by simp) (rfl : Decoder.text (.str a.policyId) = _)
    |>.present "risk_score" (by simp) hscore
    |>.present "severity" (by simp) (Decoder.orNull_text severity)
    |>.present "factors" (by simp) hfactors
    |>.present "assessed_by" (by simp) (rfl : Decoder.text (.str a.assessedBy) = _)
    |>.present "assessment_date" (by simp) (Decoder.orNull_instant hdate)).decode

/-- **Declared severities.** The assessment is decoded exactly when they all name the derived ones.
-/
theorem ofJson_jsonWith {a b : Assessment Float} (h : a.Valid)
    (hdate : Instant.read? a.assessmentDate.text = some a.assessmentDate) {severity : String}
    {severities : Nat → String} {now : Instant} :
    ofJson now (a.jsonWith severity severities) = .ok b ↔
      b = a ∧ Names severity a.severity.code ∧ AllName severities a.factors := by
  have hread : ofJson now (a.jsonWith severity severities) =
      ((a.resubmit severity severities).build now).mapError .rules := by
    rw [ofJson, input_ofJson_jsonWith hdate]
    rfl
  rw [hread, ← h.build_resubmit now]
  cases (a.resubmit severity severities).build now <;> simp [Except.mapError]

/-! ### Reloading -/

/-- The codes of the severities of the factors. -/
def codes (a : Assessment Float) (i : Nat) : String :=
  (a.factors[i]?.map (·.severity.code)).getD ""

private theorem codes_eq {a : Assessment Float} {i : Nat} {f : Factor Float}
    (h : a.factors[i]? = some f) : a.codes i = f.severity.code := by
  simp [codes, h]

/-- The assessment declares its own severities when it is written. -/
theorem allName_codes (a : Assessment Float) : AllName a.codes a.factors := by
  intro i f h
  rw [codes_eq h]
  exact f.severity.names_code

/-- With one text replaced, all name the severities exactly when the new text names its own. -/
private theorem allName_update {a : Assessment Float} {i : Nat} {f : Factor Float}
    (h : a.factors[i]? = some f) {severity : String} :
    AllName (Function.update a.codes i severity) a.factors ↔ Names severity f.severity.code := by
  constructor
  · intro hall
    simpa using hall i f h
  · intro hname j g hg
    by_cases hj : j = i
    · subst hj
      obtain rfl := Option.some.inj (h.symm.trans hg)
      simpa using hname
    · rw [Function.update_of_ne hj]
      exact a.allName_codes j g hg

theorem toJson_eq_jsonWith (a : Assessment Float) :
    a.toJson = a.jsonWith a.severity.code a.codes := by
  have hfactors : a.factors.map Factor.toJson =
      a.factors.mapIdx fun i f => f.jsonWith (a.codes i) := by
    refine List.ext_getElem (by simp) fun i hi hi' => ?_
    rw [List.getElem_map, List.getElem_mapIdx, codes_eq (List.getElem?_eq_getElem _),
      Factor.toJson_eq_jsonWith]
  rw [toJson, hfactors]
  rfl

private theorem put_severity (a : Assessment Float) (severity : String) :
    a.toJson.put (.str severity) [.member "severity"] = a.jsonWith severity a.codes := by
  rw [toJson_eq_jsonWith]
  rfl

/-- Replacing the text in the place changes one of the texts that are written. -/
private theorem put_factor_severity (a : Assessment Float) (i : Nat) (severity : String) :
    a.toJson.put (.str severity) [.member "factors", .item i, .member "severity"] =
      a.jsonWith a.severity.code (Function.update a.codes i severity) := by
  have hfactors :
      (a.factors.mapIdx fun j f => f.jsonWith (a.codes j)).modify i
        (fun json => json.put (.str severity) [.member "severity"]) =
      a.factors.mapIdx fun j f => f.jsonWith (Function.update a.codes i severity j) := by
    refine List.ext_getElem (by simp) fun j hj hj' => ?_
    rw [List.getElem_modify, List.getElem_mapIdx, List.getElem_mapIdx]
    by_cases h : i = j
    · subst h
      rw [if_pos rfl, Function.update_self]
      rfl
    · rw [if_neg h, Function.update_of_ne (Ne.symm h)]
  rw [toJson_eq_jsonWith, jsonWith, jsonWith, ← hfactors]
  rfl

/-- **Reloading.** An assessment is decoded from its JSON, and from its JSON with one severity
replaced exactly when the text in its place names the severity of the score beside it. -/
theorem reloads {a : Assessment Float} (hbuilt : a.Built)
    (hdate : Instant.read? a.assessmentDate.text = some a.assessmentDate) (now : Instant) :
    ofJson now a.toJson = .ok a ∧
    (∀ severity b, ofJson now (a.toJson.put (.str severity) [.member "severity"]) = .ok b ↔
      Names severity a.severity.code ∧ b = a) ∧
    ∀ i f, a.factors[i]? = some f → ∀ severity b,
      ofJson now
          (a.toJson.put (.str severity) [.member "factors", .item i, .member "severity"]) = .ok b ↔
        Names severity f.severity.code ∧ b = a := by
  have hvalid := hbuilt.valid
  refine ⟨?_, fun severity b => ?_, fun i f hf severity b => ?_⟩
  · rw [toJson_eq_jsonWith, ofJson_jsonWith hvalid hdate]
    exact ⟨rfl, a.severity.names_code, a.allName_codes⟩
  · -- The factors still declare their own severities, so only the new text counts.
    rw [put_severity, ofJson_jsonWith hvalid hdate]
    exact ⟨fun ⟨hb, hname, _⟩ => ⟨hname, hb⟩, fun ⟨hname, hb⟩ => ⟨hb, hname, a.allName_codes⟩⟩
  · rw [put_factor_severity, ofJson_jsonWith hvalid hdate, allName_update hf]
    exact ⟨fun ⟨hb, _, hname⟩ => ⟨hname, hb⟩,
      fun ⟨hname, hb⟩ => ⟨hb, a.severity.names_code, hname⟩⟩

/-- A submission is accepted; with its severity in small letters it is read back, and with another
severity of its factor it is not. -/
theorem reloads_of_submission :
    let input : AssessmentInput Float :=
      ⟨" pol-1 ", 85, none, [⟨"claims_history", 40, 1, none⟩], "ana", some ⟨60, 0⟩⟩
    ∃ a, input.build ⟨0, 0⟩ = .ok a ∧ ofJson ⟨7, 0⟩ a.toJson = .ok a ∧
      ofJson ⟨7, 0⟩ (a.toJson.put (.str " high") [.member "severity"]) = .ok a ∧
      ∀ b, ofJson ⟨7, 0⟩
        (a.toJson.put (.str "HIGH") [.member "factors", .item 0, .member "severity"]) ≠ .ok b := by
  intro input
  have hsome : (input.build ⟨0, 0⟩).toOption.isSome = true := by decide +kernel
  cases hbuild : input.build ⟨0, 0⟩ with
  | error report => simp [hbuild, Except.toOption] at hsome
  | ok a =>
    have hbecomes := AssessmentInput.becomes_of_build hbuild
    have hdate : Instant.read? a.assessmentDate.text = some a.assessmentDate := by
      rw [hbecomes.date]
      decide +kernel
    obtain ⟨f, hf, hseverity⟩ : ∃ f, a.factors = [f] ∧ f.severity = Severity.band (40 : Float) := by
      obtain ⟨f, fs, ⟨-, -, -, hseverity⟩, hnil, hfs⟩ :=
        List.forall₂_cons_left_iff.mp hbecomes.factors
      rw [List.forall₂_nil_left_iff.mp hnil] at hfs
      exact ⟨f, hfs, hseverity⟩
    obtain ⟨hsame, htop, hfactors⟩ := reloads (.submitted input ⟨0, 0⟩ hbuild) hdate ⟨7, 0⟩
    refine ⟨a, rfl, hsame, (htop _ _).mpr ⟨?_, rfl⟩, fun b hb => ?_⟩
    · rw [hbecomes.severity]
      decide +kernel
    · have hname := ((hfactors 0 f (by simp [hf]) _ _).mp hb).1
      rw [hseverity] at hname
      exact absurd hname (by decide +kernel)

end Assessment

end

/-! ## Severities in JSON

- **Occurrences** (`Json.Occurs`): the values that occur in a JSON value, itself among them.
- **Bands** (`Banded`, `Json.Banded`): a severity is the band of the score beside it. In JSON this
  is said of every object that occurs and has both.
- **Files** (`UnderwritingFile.banded_toJson`): the JSON of a file is banded when its evaluation is
  (`EvaluationOutcome.Banded`); an assessment and its factors always are. -/

/-- The severity is the band of the score, which is finite and from 0 to 100. -/
structure Banded (severity : Severity) (score : Float) : Prop where
  inRange : Score.InRange score
  severity_eq : severity = Severity.band score

theorem Factor.banded (f : Factor Float) : PolicyDesk.Banded f.severity f.score.value :=
  ⟨f.score.inRange, f.severity_eq⟩

theorem Assessment.banded (a : Assessment Float) :
    PolicyDesk.Banded a.severity a.riskScore.value :=
  ⟨a.riskScore.inRange, a.severity_eq⟩

/-- The severity of an outcome and those of its components are the bands of their scores. -/
structure EvaluationOutcome.Banded (o : EvaluationOutcome Float) : Prop where
  whole : PolicyDesk.Banded o.severity o.riskScore
  components : ∀ c ∈ o.components, PolicyDesk.Banded c.severity c.score

namespace Json

/-! ### Occurrences -/

/-- A value occurs in a JSON value. By way of items and members, at any depth. -/
inductive Occurs (value : Json) : Json → Prop
  | here : Occurs value value
  | item {item : Json} {items : List Json} : item ∈ items → Occurs value item →
    Occurs value (.arr items)
  | member {name : Option String} {json : Json} {members : List (Option String × Json)} :
    (name, json) ∈ members → Occurs value json → Occurs value (.obj members)

/-- A severity that stands among the members is the band of the score that does. The score stands
under either of two names. -/
def BandedMembers (members : List (Option String × Json)) : Prop :=
  ∀ severity score, (some "severity", severity) ∈ members →
    (some "score", score) ∈ members ∨ (some "risk_score", score) ∈ members →
    ∃ s x, severity = Severity.toJson s ∧ score = .num (.real x) ∧ PolicyDesk.Banded s x

/-- Every severity that occurs is the band of the score beside it. -/
def Banded (json : Json) : Prop := ∀ members, Occurs (.obj members) json → BandedMembers members

@[simp] theorem banded_str (s : String) : Banded (.str s) := fun _ h => nomatch h

@[simp] theorem banded_num (n : JsonNumber) : Banded (.num n) := fun _ h => nomatch h

@[simp] theorem banded_null : Banded .null := fun _ h => nomatch h

@[simp] theorem banded_ofFloat (x : Float) : Banded (.ofFloat x) := by
  unfold ofFloat
  split
  · exact banded_num _
  · exact banded_null

theorem banded_map {α : Type} {write : α → Json} {as : List α} (h : ∀ a ∈ as, (write a).Banded) :
    Banded (.arr (as.map write)) := by
  intro members hoccurs
  cases hoccurs with
  | item hmem hin =>
    obtain ⟨a, ha, rfl⟩ := List.mem_map.mp hmem
    exact h a ha members hin

@[simp] theorem banded_ofStrings (ss : List String) : Banded (.ofStrings ss) :=
  banded_map fun s _ => banded_str s

theorem banded_orNull {α : Type} {write : α → Json} {found : Option α}
    (h : ∀ a, found = some a → (write a).Banded) : (orNull write found).Banded := by
  cases found with
  | none => exact banded_null
  | some a => exact h a rfl

/-- Its own members must be banded and so must everything below them. -/
private theorem banded_record {fields : List (String × Json)}
    (hown : BandedMembers (fields.map fun (name, value) => (some name, value)))
    (hfields : ∀ field ∈ fields, field.2.Banded) : (record fields).Banded := by
  intro members hoccurs
  cases hoccurs with
  | here => exact hown
  | member hmem hin =>
    obtain ⟨field, hfield, heq⟩ := List.mem_map.mp hmem
    cases heq
    exact hfields field hfield members hin

/-- A record without a severity is banded when its values are. -/
private theorem banded_record_of_lacks {fields : List (String × Json)}
    (hlacks : ∀ field ∈ fields, field.1 ≠ "severity")
    (hfields : ∀ field ∈ fields, field.2.Banded) : (record fields).Banded := by
  refine banded_record (fun severity score hseverity _ => ?_) hfields
  obtain ⟨field, hfield, heq⟩ := List.mem_map.mp hseverity
  exact absurd (Option.some.inj (congrArg Prod.fst heq)) (hlacks field hfield)

/-- A record with a severity is banded when that is the band of its score and its values are banded.
-/
private theorem banded_record_of_banded {fields : List (String × Json)} {s : Severity} {x : Float}
    (h : PolicyDesk.Banded s x)
    (hseverity : ∀ json, ("severity", json) ∈ fields → json = s.toJson)
    (hscore : ∀ json, ("score", json) ∈ fields ∨ ("risk_score", json) ∈ fields →
      json = .ofFloat x)
    (hfields : ∀ field ∈ fields, field.2.Banded) : (record fields).Banded := by
  have hmem {name : String} {json : Json}
      (h : (some name, json) ∈ fields.map fun (name, value) => (some name, value)) :
      (name, json) ∈ fields := by
    simpa using h
  refine banded_record (fun severity score hs hx => ⟨s, x, ?_, ?_, h⟩) hfields
  · exact hseverity severity (hmem hs)
  · rw [hscore score (hx.imp hmem hmem), ofFloat]
    exact if_pos h.inRange.1

end Json

/-! ### What is written -/

@[simp] theorem Severity.banded_toJson (s : Severity) : s.toJson.Banded := Json.banded_str s.code

@[simp] theorem FactorType.banded_toJson (t : FactorType) : t.toJson.Banded :=
  Json.banded_str t.code

@[simp] theorem Instant.banded_toJson (t : Instant) : t.toJson.Banded := Json.banded_str t.text

@[simp] theorem Score.banded_toJson (s : Score Float) : s.toJson.Banded :=
  Json.banded_ofFloat s.value

@[simp] theorem banded_statusJson {σ : Type} [WorkflowStatus σ] (s : σ) : (statusJson s).Banded :=
  Json.banded_str _

theorem Factor.banded_toJson (f : Factor Float) : f.toJson.Banded := by
  refine Json.banded_record_of_banded f.banded ?_ ?_ ?_ <;> simp [Score.toJson]

theorem Assessment.banded_toJson (a : Assessment Float) : a.toJson.Banded := by
  have hfactors : (Json.arr (a.factors.map Factor.toJson)).Banded :=
    Json.banded_map fun f _ => f.banded_toJson
  refine Json.banded_record_of_banded a.banded ?_ ?_ ?_ <;> simp [Score.toJson, hfactors]

theorem Decision.banded_toJson (d : Decision) : d.toJson.Banded := by
  refine Json.banded_record_of_lacks ?_ ?_ <;> cases d.notes <;> simp [Json.member?]

theorem ScoreComponent.banded_toJson {c : ScoreComponent Float} (h : Banded c.severity c.score) :
    c.toJson.Banded := by
  refine Json.banded_record_of_banded h ?_ ?_ ?_ <;> simp

theorem EvaluationOutcome.Banded.toJson {o : EvaluationOutcome Float} (h : o.Banded) :
    o.toJson.Banded := by
  have hcomponents : (Json.arr (o.components.map ScoreComponent.toJson)).Banded :=
    Json.banded_map fun c hc => ScoreComponent.banded_toJson (h.components c hc)
  refine Json.banded_record_of_banded h.whole ?_ ?_ ?_ <;> simp [hcomponents]

theorem Referral.banded_toJson {r : Referral} (h : Banded r.severity r.riskScore) :
    r.toJson.Banded := by
  refine Json.banded_record_of_banded h ?_ ?_ ?_ <;> simp

theorem StatusView.banded_toJson {v : StatusView} (h : Banded v.severity v.riskScore) :
    v.toJson.Banded := by
  refine Json.banded_record_of_banded h ?_ ?_ ?_ <;> cases v.conditions.isEmpty <;> simp

/-- The JSON of a file is banded when its evaluation is. -/
theorem UnderwritingFile.banded_toJson {f : UnderwritingFile}
    (h : ∀ o, f.evaluation = some o → o.Banded) : f.toJson.Banded := by
  have hevaluation : (Json.orNull EvaluationOutcome.toJson f.evaluation).Banded :=
    Json.banded_orNull fun o ho => (h o ho).toJson
  have hdecisions : (Json.arr (f.decisions.map Decision.toJson)).Banded :=
    Json.banded_map fun d _ => d.banded_toJson
  refine Json.banded_record_of_lacks ?_ ?_
  · simp
  · simp [f.assessment.banded_toJson, hevaluation, hdecisions, Json.ofUInt64]

end PolicyDesk
