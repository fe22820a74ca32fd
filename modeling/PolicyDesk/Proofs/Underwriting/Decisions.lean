import PolicyDesk.Proofs.Desk.Runs
import PolicyDesk.Proofs.Evaluation.Recommendation
import PolicyDesk.Proofs.Text
import PolicyDesk.Proofs.Workflow
import PolicyDesk.Underwriting

/-!
# Decisions and their authors

What a decision is, how it comes of a proposal, and who gave a file its status.
-/

namespace PolicyDesk

/-! ## What a decision is

- **Proposals** (`ProposedDecision.Accepted`): the rules of a proposal. A decision is made of one
  exactly when it keeps them and an underwriter is named, and it is then given in full
  (`Decision.ofProposal_eq_ok`).
- **Signatures** (`Decision.Signed`): a decision that was made of a proposal has an author, its
  texts are trimmed and not blank, and a decline is explained (`Decision.signed_of_proposal`). -/

/-- A text without blanks around it that is not blank. Texts are kept in this form. -/
structure Text.Tidy (s : String) : Prop where
  trimmed : Text.trim s = s
  notBlank : Text.isBlank s = false

theorem Text.tidy_trim {s : String} (h : Text.isBlank s = false) : Text.Tidy (Text.trim s) :=
  ⟨Text.trim_trim s, (Text.isBlank_trim s).trans h⟩

namespace ProposedDecision

variable {p : ProposedDecision} {status : UnderwritingStatus}

/-- The proposal names the status and breaks no rule. It does not ask who decides: the report on a
proposal does not know. -/
structure Accepted (p : ProposedDecision) (status : UnderwritingStatus) : Prop where
  named : parseStatus p.decision = .ok status
  explained : status = .declined → minDeclineNotes ≤ p.notesLength
  conditions : ∀ c ∈ p.conditions.getD [], Text.isBlank c = false

private theorem checkNotes_eq_nil :
    p.checkNotes (some status) = [] ↔ (status = .declined → minDeclineNotes ≤ p.notesLength) := by
  simp [checkNotes]

private theorem checkConditions_eq_nil :
    p.checkConditions = [] ↔ ∀ c ∈ p.conditions.getD [], Text.isBlank c = false := by
  rw [checkConditions, List.map_eq_nil_iff, List.filter_eq_nil_iff]
  conv_rhs => rw [← List.zipIdx_map_fst 0 (p.conditions.getD []), List.forall_mem_map]
  simp

/-- The report on a proposal is clean exactly when the proposal names a status and breaks no
rule. -/
theorem valid_iff : p.validate.valid = true ↔ ∃ status, p.Accepted status := by
  have hvalid : p.validate.valid = true ↔ p.check.2 = [] := List.isEmpty_iff
  rw [hvalid]
  simp only [check, List.append_eq_nil_iff, Report.note_eq_nil_iff, checkConditions_eq_nil]
  constructor
  · rintro ⟨⟨⟨status, hnamed⟩, hnotes⟩, hconditions⟩
    rw [hnamed] at hnotes
    exact ⟨status, hnamed, checkNotes_eq_nil.mp hnotes, hconditions⟩
  · rintro ⟨status, haccepted⟩
    rw [haccepted.named]
    exact ⟨⟨⟨status, rfl⟩, checkNotes_eq_nil.mpr haccepted.explained⟩, haccepted.conditions⟩

end ProposedDecision

namespace Decision

open ProposedDecision (checkNotes_eq_nil checkConditions_eq_nil)

variable {p : ProposedDecision} {decidedBy : String} {decidedAt : Instant} {d : Decision}

/-- When a proposal makes a decision, and which. -/
theorem ofProposal_eq_ok :
    ofProposal p decidedBy decidedAt = .ok d ↔
      ∃ status, p.Accepted status ∧ Text.isBlank decidedBy = false ∧
        d = ⟨status, keepNotes p.notes, (p.conditions.getD []).map Text.trim, Text.trim decidedBy,
          decidedAt⟩ := by
  unfold ofProposal ProposedDecision.check
  cases hparse : (parseStatus p.decision : Except UnknownStatus UnderwritingStatus) with
  | error e =>
    constructor
    · intro h
      simp [Except.toOption] at h
    · rintro ⟨status, haccepted, -⟩
      rw [haccepted.named] at hparse
      cases hparse
  | ok status =>
    have hfound : Report.note "decision" (·.message) (.ok status : Except UnknownStatus _) ++
        p.checkNotes (some status) ++ p.checkConditions ++
        (if Text.isBlank decidedBy then
          [⟨"decided_by", "decision must name the underwriter"⟩] else []) = [] ↔
        p.Accepted status ∧ Text.isBlank decidedBy = false := by
      simp only [Report.note, List.nil_append, List.append_eq_nil_iff, checkNotes_eq_nil,
        checkConditions_eq_nil, ite_eq_right_iff, List.cons_ne_nil, imp_false, Bool.not_eq_true]
      constructor
      · rintro ⟨⟨hnotes, hconditions⟩, hblank⟩
        exact ⟨⟨hparse, hnotes, hconditions⟩, hblank⟩
      · rintro ⟨haccepted, hblank⟩
        exact ⟨⟨haccepted.explained, haccepted.conditions⟩, hblank⟩
    constructor
    · intro h
      dsimp only [Except.toOption] at h
      split at h
      · rename_i status' hstatus hnil
        cases hstatus
        cases h
        exact ⟨status, (hfound.mp hnil).1, (hfound.mp hnil).2, rfl⟩
      · cases h
    · rintro ⟨status', haccepted, hblank, rfl⟩
      obtain rfl : status = status' := Except.ok.inj (hparse.symm.trans haccepted.named)
      have hnil := hfound.mpr ⟨haccepted, hblank⟩
      dsimp only [Except.toOption]
      rw [hnil]

/-! ### Signatures -/

/-- A decision has an author, its texts are trimmed and not blank, and a decline is explained. -/
structure Signed (d : Decision) : Prop where
  author : Text.Tidy d.decidedBy
  notes : ∀ notes, d.notes = some notes → Text.Tidy notes
  conditions : ∀ c ∈ d.conditions, Text.Tidy c
  explained : d.status = .declined → ∃ notes, d.notes = some notes ∧ minDeclineNotes ≤ notes.length

/-- Notes that are nothing but white space are dropped. -/
theorem keepNotes_eq_some {notes : Option String} {kept : String} :
    keepNotes notes = some kept ↔
      ∃ raw, notes = some raw ∧ Text.isBlank raw = false ∧ kept = Text.trim raw := by
  unfold keepNotes
  cases notes with
  | none => simp
  | some raw =>
    have hempty : (!(Text.trim raw).isEmpty) = true ↔ Text.isBlank raw = false := by
      simp [Text.isBlank_eq_false_iff]
    rw [Option.map_some, Option.filter_eq_some_iff, Option.some.injEq]
    constructor
    · rintro ⟨rfl, hkept⟩
      exact ⟨raw, rfl, hempty.mp hkept, rfl⟩
    · rintro ⟨_, ⟨⟩, hblank, rfl⟩
      exact ⟨rfl, hempty.mpr hblank⟩

theorem signed_of_proposal (h : ofProposal p decidedBy decidedAt = .ok d) : d.Signed := by
  obtain ⟨status, haccepted, hblank, rfl⟩ := ofProposal_eq_ok.mp h
  refine ⟨Text.tidy_trim hblank, fun notes hnotes => ?_, fun c hc => ?_, fun hdeclined => ?_⟩
  · obtain ⟨raw, -, hraw, rfl⟩ := keepNotes_eq_some.mp hnotes
    exact Text.tidy_trim hraw
  · obtain ⟨raw, hraw, rfl⟩ := List.mem_map.mp hc
    exact Text.tidy_trim (haccepted.conditions raw hraw)
  · have hlength := haccepted.explained hdeclined
    dsimp only
    cases hnotes : p.notes with
    | none => simp [ProposedDecision.notesLength, hnotes, minDeclineNotes] at hlength
    | some raw =>
      simp only [ProposedDecision.notesLength, hnotes] at hlength
      have hblank : Text.isBlank raw = false := by
        rw [Text.isBlank_eq_false_iff]
        intro hempty
        rw [hempty] at hlength
        exact absurd hlength (by decide)
      have hkept : keepNotes (some raw) = some (Text.trim raw) :=
        keepNotes_eq_some.mpr ⟨raw, rfl, hblank, rfl⟩
      exact ⟨Text.trim raw, hkept, hlength⟩

end Decision

/-! ## Proposals and the decisions made of them

The report on a proposal and the decision that it makes come from one pass over the rules.

- **Agreement** (`exists_ofProposal_iff`, `violations_of_refused`): a decision is made exactly when
  the report is clean and an underwriter is named, and a refusal is the report with at most one
  violation more, of `decided_by`.
- **Normal form** (`keepNotes_eq`, `ofProposal_proposal`): what is made has its texts trimmed, and a
  signed decision that is proposed again is made again as it is. -/

/-- The decision as it would be proposed. Its status is written as a code. -/
def Decision.proposal (d : Decision) : ProposedDecision where
  decision := d.status.code
  notes := d.notes
  conditions := some d.conditions

/-- A proposal, the report on it, and what comes of it when an underwriter takes it. -/
structure ProposalOutcome (p : ProposedDecision) (decidedBy : String) (decidedAt : Instant) :
    Prop where
  valid : p.validate.valid = true ↔
    ∃ status : UnderwritingStatus, parseStatus p.decision = .ok status ∧
      (∀ conditions, p.conditions = some conditions → ∀ c ∈ conditions, Text.isBlank c = false) ∧
      (status = .declined → ∃ notes, p.notes = some notes ∧ 10 ≤ (Text.trim notes).length)
  made : (∃ d, Decision.ofProposal p decidedBy decidedAt = .ok d) ↔
    p.validate.valid = true ∧ Text.isBlank decidedBy = false
  refused : ∀ report, Decision.ofProposal p decidedBy decidedAt = .error report →
    report.violations = p.validate.violations ++
      if Text.isBlank decidedBy then [⟨"decided_by", "decision must name the underwriter"⟩] else []
  tidied : ∀ d, Decision.ofProposal p decidedBy decidedAt = .ok d →
    parseStatus p.decision = .ok d.status ∧ d.decidedAt = decidedAt ∧
      d.decidedBy = Text.trim decidedBy ∧
      d.notes = (p.notes.filter fun notes => !Text.isBlank notes).map Text.trim ∧
      d.conditions = (p.conditions.getD []).map Text.trim
  /-- Proposed again, the decision is made again as it is. -/
  again : ∀ d, Decision.ofProposal p decidedBy decidedAt = .ok d →
    Decision.ofProposal d.proposal d.decidedBy decidedAt = .ok d

/-! ### Reports -/

namespace ProposedDecision

variable {p : ProposedDecision} {status : UnderwritingStatus}

private theorem le_notesLength_iff :
    minDeclineNotes ≤ p.notesLength ↔
      ∃ notes, p.notes = some notes ∧ 10 ≤ (Text.trim notes).length := by
  unfold notesLength minDeclineNotes
  cases p.notes <;> simp

theorem accepted_iff :
    p.Accepted status ↔ parseStatus p.decision = .ok status ∧
      (∀ conditions, p.conditions = some conditions → ∀ c ∈ conditions, Text.isBlank c = false) ∧
      (status = .declined → ∃ notes, p.notes = some notes ∧ 10 ≤ (Text.trim notes).length) := by
  have hconditions : (∀ c ∈ p.conditions.getD [], Text.isBlank c = false) ↔
      ∀ conditions, p.conditions = some conditions → ∀ c ∈ conditions, Text.isBlank c = false := by
    cases p.conditions <;> simp
  rw [← le_notesLength_iff, ← hconditions]
  constructor
  · intro h
    exact ⟨h.named, h.conditions, h.explained⟩
  · rintro ⟨hnamed, hconditions, hexplained⟩
    exact ⟨hnamed, hexplained, hconditions⟩

end ProposedDecision

/-! ### Decisions -/

namespace Decision

variable {p : ProposedDecision} {decidedBy : String} {decidedAt : Instant} {d : Decision}

theorem exists_ofProposal_iff :
    (∃ d, ofProposal p decidedBy decidedAt = .ok d) ↔
      p.validate.valid = true ∧ Text.isBlank decidedBy = false := by
  rw [ProposedDecision.valid_iff]
  constructor
  · rintro ⟨d, hd⟩
    obtain ⟨status, haccepted, hblank, -⟩ := ofProposal_eq_ok.mp hd
    exact ⟨⟨status, haccepted⟩, hblank⟩
  · rintro ⟨⟨status, haccepted⟩, hblank⟩
    exact ⟨_, ofProposal_eq_ok.mpr ⟨status, haccepted, hblank, rfl⟩⟩

/-- A refusal is the report on the proposal, and a violation of `decided_by` if no one is named. -/
theorem violations_of_refused {report : Report}
    (h : ofProposal p decidedBy decidedAt = .error report) :
    report.violations = p.validate.violations ++
      if Text.isBlank decidedBy then [⟨"decided_by", "decision must name the underwriter"⟩]
      else [] := by
  unfold ofProposal at h
  generalize hcheck : p.check = result at h
  have hreport : p.validate = ⟨result.2⟩ := by
    rw [← hcheck]
    rfl
  obtain ⟨status, found⟩ := result
  rw [hreport]
  dsimp only at h ⊢
  split at h
  · cases h
  · cases h
    rfl

/-- The filter comes before the trim here, and after it in `keepNotes`; a text is blank exactly when
its trim is empty. -/
theorem keepNotes_eq (notes : Option String) :
    keepNotes notes = (notes.filter fun s => !Text.isBlank s).map Text.trim := by
  cases notes with
  | none => rfl
  | some raw =>
    by_cases hblank : Text.isBlank raw = true
    · have hempty : Text.trim raw = "" := Text.isBlank_iff.mp hblank
      simp [keepNotes, Option.filter_some, hblank, hempty]
    · have hkept : keepNotes (some raw) = some (Text.trim raw) :=
        keepNotes_eq_some.mpr ⟨raw, rfl, by simpa using hblank, rfl⟩
      simp [hkept, Option.filter_some, hblank]

/-- Notes that are tidy are kept as they are. -/
theorem keepNotes_tidy {notes : Option String} (h : ∀ s, notes = some s → Text.Tidy s) :
    keepNotes notes = notes := by
  cases notes with
  | none => rfl
  | some s =>
    have htidy := h s rfl
    simp [keepNotes_eq, Option.filter_some, htidy.notBlank, htidy.trimmed]

/-- A signed decision keeps the rules that it was made by. -/
theorem Signed.accepted (h : d.Signed) : d.proposal.Accepted d.status where
  named := parseStatus_code d.status
  explained hdeclined := by
    obtain ⟨notes, hnotes, hlength⟩ := h.explained hdeclined
    apply ProposedDecision.le_notesLength_iff.mpr
    refine ⟨notes, hnotes, ?_⟩
    rw [(h.notes notes hnotes).trimmed]
    exact hlength
  conditions c hc := (h.conditions c hc).notBlank

/-- A signed decision that is proposed again is made again. Trimming what is trimmed changes
nothing. -/
theorem ofProposal_proposal (h : d.Signed) :
    ofProposal d.proposal d.decidedBy d.decidedAt = .ok d := by
  apply ofProposal_eq_ok.mpr
  refine ⟨d.status, h.accepted, h.author.notBlank, ?_⟩
  have hnotes : keepNotes d.notes = d.notes := keepNotes_tidy h.notes
  have hconditions : d.conditions.map Text.trim = d.conditions := by
    conv_rhs => rw [← List.map_id d.conditions]
    apply List.map_congr_left
    intro c hc
    exact (h.conditions c hc).trimmed
  simp only [proposal, hnotes, Option.getD_some, hconditions, h.author.trimmed]

end Decision

/-- **Proposals.** The report and the decision agree, and what is made is in normal form. -/
theorem ProposedDecision.outcome (p : ProposedDecision) (decidedBy : String)
    (decidedAt : Instant) : ProposalOutcome p decidedBy decidedAt where
  valid := by
    rw [valid_iff]
    simp only [accepted_iff]
  made := Decision.exists_ofProposal_iff
  refused _ h := Decision.violations_of_refused h
  tidied d h := by
    obtain ⟨status, haccepted, -, rfl⟩ := Decision.ofProposal_eq_ok.mp h
    exact ⟨haccepted.named, rfl, rfl, Decision.keepNotes_eq p.notes, rfl⟩
  again d h := by
    have htime : d.decidedAt = decidedAt := by
      obtain ⟨-, -, -, rfl⟩ := Decision.ofProposal_eq_ok.mp h
      rfl
    rw [← htime]
    exact Decision.ofProposal_proposal (Decision.signed_of_proposal h)

/-! ## Who gave a file its status

Every file of a desk that is reached is accountable (`UnderwritingFile.Accountable`,
`Desk.Reached.accountable`):

- a status that only an underwriter gives is that of the latest decision;
- a file that awaits its review is new, or was sent back by the latest decision;
- a status that an evaluation can give is that of the latest decision or of the evaluation kept;
- every decision is signed. -/

section

namespace UnderwritingStatus

/-- The statuses that only an underwriter gives. -/
def reserved : List UnderwritingStatus :=
  [inReview, pendingDocuments, conditionallyApproved, approved, declined]

private theorem not_reserved_of_recommendable {s : UnderwritingStatus} (h : s ∈ recommendable) :
    s ∉ reserved ∧ s ≠ pendingReview := by
  cases s <;> revert h <;> decide

end UnderwritingStatus

open UnderwritingStatus (recommendable reserved)

namespace UnderwritingFile

/-- The latest decision gave the status. -/
def DecidedLast (f : UnderwritingFile) : Prop :=
  ∃ d, f.latestDecision? = some d ∧ d.status = f.status

/-- The evaluation that is kept recommended the status. -/
def Recommended (f : UnderwritingFile) : Prop :=
  ∃ outcome, f.evaluation = some outcome ∧ outcome.recommendedStatus = f.status

/-- The status of the file and its decisions have authors. The three groups of statuses overlap:
those that an evaluation may recommend can be decided too. -/
structure Accountable (f : UnderwritingFile) : Prop where
  byUnderwriter : f.status ∈ reserved → f.DecidedLast
  awaiting : f.status = .pendingReview → f.revision = 0 ∨ f.DecidedLast
  byEither : f.status ∈ recommendable → f.DecidedLast ∨ f.Recommended
  signed : ∀ d ∈ f.decisions, d.Signed

theorem accountable_ofAssessment (a : Assessment Float) : (ofAssessment a).Accountable where
  byUnderwriter h := by simp [ofAssessment, reserved] at h
  awaiting _ := .inl rfl
  byEither h := by simp [ofAssessment, recommendable] at h
  signed d hd := by simp [ofAssessment] at hd

/-- An evaluation recommends none of the statuses that only an underwriter gives. -/
theorem Accountable.withOutcome {f : UnderwritingFile} (h : f.Accountable)
    {outcome : EvaluationOutcome Float} (hmem : outcome.recommendedStatus ∈ recommendable) :
    (f.withOutcome outcome).Accountable := by
  obtain ⟨hreserved, hpending⟩ := UnderwritingStatus.not_reserved_of_recommendable hmem
  exact ⟨fun hby => absurd hby hreserved, fun hawaiting => absurd hawaiting hpending,
    fun _ => .inr ⟨outcome, rfl, rfl⟩, h.signed⟩

/-- The decision is now the latest, and gave the status. -/
theorem Accountable.withDecision {f : UnderwritingFile} (h : f.Accountable) {d : Decision}
    (hsigned : d.Signed) : (f.withDecision d).Accountable := by
  have hlast : (f.withDecision d).DecidedLast :=
    ⟨d, by simp [latestDecision?, UnderwritingFile.withDecision], rfl⟩
  refine ⟨fun _ => hlast, fun _ => .inr hlast, fun _ => .inl hlast, fun e he => ?_⟩
  obtain he | he := List.mem_append.mp he
  · exact h.signed e he
  · obtain rfl := List.mem_singleton.mp he
    exact hsigned

end UnderwritingFile

namespace Stored

/-- The record, if it is a file, is accountable. -/
def Accountable : Stored → Prop
  | file f => f.Accountable
  | claim _ => True

private theorem accountable_of_opens {config : EvaluationConfig Float} {c : Call} {record : Stored}
    (h : c.Opens config record) : record.Accountable := by
  cases h with
  | file a _ => exact UnderwritingFile.accountable_ofAssessment a
  | claim request n _ => trivial

private theorem accountable_of_amends {config : EvaluationConfig Float} {c : Call} {a : Amendment}
    (ha : Amends config c a) (h : a.source.Accountable) : a.changed.Accountable := by
  cases ha with
  | evaluation policyId f _ _ =>
    exact UnderwritingFile.Accountable.withOutcome h (config.recommendedStatus_mem f.assessment)
  | decision policyId proposal decidedBy now f d hp _ _ =>
    exact UnderwritingFile.Accountable.withDecision h (Decision.signed_of_proposal hp)
  | move _ _ _ _ _ => trivial

end Stored

/-- **Accountability.** Every file of a desk that is reached has authors for its status and for its
decisions. It is kept record by record, so it holds under interleavings too. -/
theorem Desk.Reached.accountable {config : EvaluationConfig Float} {desk : Desk}
    (h : desk.Reached config) {k : PolicyId} {f : UnderwritingFile}
    (hf : desk.files.find? k = some f) : f.Accountable := by
  have hs : desk.stored? (.file k) = some (.file f) := Desk.stored?_file_eq_some.mpr hf
  exact h.record (P := Stored.Accountable) (fun _ _ => Stored.accountable_of_opens)
    (fun _ _ => Stored.accountable_of_amends) hs

/-- A file is submitted, sent for review and declined. -/
theorem accountable_of_decline :
    let visits : List Visit :=
      [⟨.submit ⟨"pol-1", 70, none, [⟨"CLAIMS_HISTORY", 70, 1, none⟩], "ana", none⟩ ⟨0, 0⟩, .ok ()⟩,
       ⟨.evaluate "pol-1", .ok ()⟩,
       ⟨.decide "pol-1" ⟨"declined", some " too many claims ", none⟩ " ana " ⟨60, 0⟩, .ok ()⟩]
    ∃ f, (Session.run .standard visits).desk.files.find? "pol-1" = some f ∧
      f.status = .declined ∧ f.Accountable := by
  intro visits
  have hfound : ((Session.run .standard visits).desk.files.find? "pol-1").map (·.status) =
      some .declined := by
    decide +kernel
  obtain ⟨f, hf, hstatus⟩ := Option.map_eq_some_iff.mp hfound
  exact ⟨f, hf, hstatus, Desk.Reached.accountable (.served visits) hf⟩

end

end PolicyDesk
