import PolicyDesk.Proofs.Desk.Stages
import PolicyDesk.Proofs.Evaluation.Recommendation
import PolicyDesk.Proofs.Underwriting.FileAccount

/-!
# The changes of an underwriting file

Evaluations and decisions change a file one after the other (`Change`).

- **Histories** (`FileHistory`): a file with the changes that made it of its assessment. The file
  admits each change when its turn comes, and its fields are read off the list of changes
  (`decisions_eq`, `evaluation_eq`, `status_eq`, `revision_eq`).
- **Order**: between two evaluations there is a decision (`decision_between`), and after a referral
  there is no evaluation (`evaluation_not_mem`).
- **Sessions** (`Session.history`): every stored file has the history that the session tells of it.
-/

namespace PolicyDesk

open WorkflowStatus (allowedNext)

/-- No evaluation recommends a move of a file that was referred. -/
private theorem UnderwritingStatus.not_recommendable_of_move {s t : UnderwritingStatus}
    (hs : s.pastReferral = true) (ht : t ∈ allowedNext s) : t ∉ recommendable := by
  cases s <;> cases hs <;> cases t <;> revert ht <;> decide

/-- What changes a file. Opening a file is no change of it. -/
inductive Change
  | evaluation (outcome : EvaluationOutcome Float)
  | decision (decision : Decision)

namespace Change

/-- The status that the file is moved to. -/
def status : Change → UnderwritingStatus
  | evaluation outcome => outcome.recommendedStatus
  | decision d => d.status

/-- The outcome of an evaluation. -/
def outcome? : Change → Option (EvaluationOutcome Float)
  | evaluation outcome => some outcome
  | decision _ => none

def decision? : Change → Option Decision
  | evaluation _ => none
  | decision d => some d

theorem outcome?_eq_some {c : Change} {outcome : EvaluationOutcome Float} :
    c.outcome? = some outcome ↔ c = .evaluation outcome := by
  cases c <;> simp [outcome?]

end Change

namespace UnderwritingFile

/-- The file after a change, its revision one higher. -/
def changedBy (f : UnderwritingFile) : Change → UnderwritingFile
  | .evaluation outcome => f.withOutcome outcome
  | .decision d => f.withDecision d

variable (f : UnderwritingFile) (c : Change)

@[simp] theorem assessment_changedBy : (f.changedBy c).assessment = f.assessment := by
  cases c <;> rfl

@[simp] theorem status_changedBy : (f.changedBy c).status = c.status := by
  cases c <;> rfl

@[simp] theorem evaluation_changedBy :
    (f.changedBy c).evaluation = c.outcome?.or f.evaluation := by
  cases c <;> rfl

@[simp] theorem decisions_changedBy :
    (f.changedBy c).decisions = f.decisions ++ c.decision?.toList := by
  cases c <;> simp [changedBy, withOutcome, withDecision, Change.decision?]

@[simp] theorem revision_changedBy : (f.changedBy c).revision = f.revision + 1 := by
  cases c <;> rfl

/-- The change is a move along the graph, and an evaluation has the outcome for the assessment. Both
rules of the code that a change has to pass speak of the file as it is before the change. -/
structure Admits (config : EvaluationConfig Float) (f : UnderwritingFile) (c : Change) : Prop where
  move : c.status ∈ allowedNext f.status
  computed : ∀ outcome, c = .evaluation outcome → outcome = config.evaluate f.assessment

end UnderwritingFile

/-! ## Histories -/

/-- The files that changes make of an assessment, the latest change last. It grows at its end, as
the revision does. -/
inductive FileHistory (config : EvaluationConfig Float) (a : Assessment Float) :
    List Change → UnderwritingFile → Prop
  | opened : FileHistory config a [] (.ofAssessment a)
  | changed {changes : List Change} {f : UnderwritingFile} (c : Change) :
    FileHistory config a changes f → f.Admits config c →
    FileHistory config a (changes ++ [c]) (f.changedBy c)

namespace FileHistory

variable {config : EvaluationConfig Float} {a : Assessment Float}
  {changes before later : List Change} {f g : UnderwritingFile} {c : Change}

theorem assessment_eq (h : FileHistory config a changes f) : f.assessment = a := by
  induction h with
  | opened => rfl
  | changed c _ _ ih => rw [UnderwritingFile.assessment_changedBy, ih]

theorem decisions_eq (h : FileHistory config a changes f) :
    f.decisions = changes.filterMap Change.decision? := by
  induction h with
  | opened => rfl
  | changed c _ _ ih =>
    rw [UnderwritingFile.decisions_changedBy, ih, List.filterMap_append]
    cases c <;> rfl

theorem evaluation_eq (h : FileHistory config a changes f) :
    f.evaluation = (changes.filterMap Change.outcome?).getLast? := by
  induction h with
  | opened => rfl
  | changed c _ _ ih =>
    rw [UnderwritingFile.evaluation_changedBy, ih, List.filterMap_append, List.getLast?_append]
    cases c <;> rfl

theorem status_eq (h : FileHistory config a changes f) :
    f.status = (changes.getLast?.map Change.status).getD .pendingReview := by
  cases h with
  | opened => rfl
  | changed c _ _ => simp

/-- The latest change gave the file its status. -/
theorem status_concat (h : FileHistory config a (before ++ [c]) f) : f.status = c.status := by
  simpa using h.status_eq

theorem revision_eq (h : FileHistory config a changes f) :
    f.revision = UInt64.ofNat changes.length := by
  induction h with
  | opened => rfl
  | changed c _ _ ih =>
    rw [UnderwritingFile.revision_changedBy, ih, List.length_append, UInt64.ofNat_add]
    rfl

/-- The changes tell the file. So two files of one assessment and the same changes are equal. -/
theorem eq_foldl (h : FileHistory config a changes f) :
    f = changes.foldl UnderwritingFile.changedBy (.ofAssessment a) := by
  induction h with
  | opened => rfl
  | changed c _ _ ih => rw [List.foldl_append, ← ih]; rfl

/-- The file that met a change. -/
theorem split (h : FileHistory config a changes f) (hc : changes = before ++ c :: later) :
    ∃ g, FileHistory config a before g ∧ g.Admits config c := by
  induction h generalizing later with
  | opened => simp at hc
  | changed d hbefore hd ih =>
    obtain ⟨rfl, rfl, -⟩ | ⟨later', -, hc'⟩ := append_one_split hc
    · exact ⟨_, hbefore, hd⟩
    · exact ih hc'

/-- Every evaluation has the same outcome. -/
theorem outcome_eq (h : FileHistory config a changes f) {outcome : EvaluationOutcome Float}
    (hc : .evaluation outcome ∈ changes) : outcome = config.evaluate a := by
  obtain ⟨before, later, hsplit⟩ := List.append_of_mem hc
  obtain ⟨g, hg, hadmits⟩ := h.split hsplit
  rw [hadmits.computed outcome rfl, hg.assessment_eq]

/-- A change never leaves the status as it is. -/
theorem status_ne (h : FileHistory config a (before ++ [c]) f) {d : Change}
    (hd : f.Admits config d) : d.status ≠ c.status := by
  intro heq
  have hmove := hd.move
  rw [h.status_concat, heq] at hmove
  exact UnderwritingStatus.not_mem_allowedNext_self _ hmove

/-- An evaluation follows on a decision, or comes first. Two evaluations of one assessment recommend
the same status, and no move leads from a status to itself. -/
theorem decision_before (h : FileHistory config a changes f) {outcome : EvaluationOutcome Float}
    (hc : changes = before ++ c :: .evaluation outcome :: later) : ∃ d, c = .decision d := by
  have hc' : changes = (before ++ [c]) ++ .evaluation outcome :: later := by simp [hc]
  obtain ⟨g, hg, hadmits⟩ := h.split hc'
  cases c with
  | decision d => exact ⟨d, rfl⟩
  | evaluation outcome' =>
    have hmem : .evaluation outcome ∈ changes := by simp [hc]
    have hmem' : .evaluation outcome' ∈ changes := by simp [hc]
    have hsame : outcome = outcome' := (h.outcome_eq hmem).trans (h.outcome_eq hmem').symm
    exact absurd (congrArg EvaluationOutcome.recommendedStatus hsame) (hg.status_ne hadmits)

/-- **Between two evaluations there is a decision.** -/
theorem decision_between (h : FileHistory config a changes f)
    {outcome outcome' : EvaluationOutcome Float} {between : List Change}
    (hc : changes = before ++ .evaluation outcome :: (between ++ .evaluation outcome' :: later)) :
    ∃ d, .decision d ∈ between := by
  rcases List.eq_nil_or_concat between with rfl | ⟨between', last, rfl⟩
  · obtain ⟨d, hd⟩ := h.decision_before hc
    cases hd
  · have hc' : changes = (before ++ .evaluation outcome :: between') ++
        last :: .evaluation outcome' :: later := by
      simp [hc]
    obtain ⟨d, rfl⟩ := h.decision_before hc'
    exact ⟨d, by simp⟩

private theorem admits_pastReferral (hf : f.status.pastReferral = true) (hc : f.Admits config c) :
    c.status.pastReferral = true ∧ ∃ d, c = .decision d := by
  refine ⟨(UnderwritingStatus.pastReferral_of_move hf hc.move).1, ?_⟩
  cases c with
  | decision d => exact ⟨d, rfl⟩
  | evaluation outcome =>
    obtain rfl := hc.computed outcome rfl
    exact absurd (EvaluationConfig.recommendedStatus_mem config f.assessment)
      (UnderwritingStatus.not_recommendable_of_move hf hc.move)

/-- **After a referral there is no evaluation.** The statuses past a referral lead to each other
only, and an evaluation recommends none of them. -/
theorem evaluation_not_mem (h : FileHistory config a before f) (hf : f.status.pastReferral = true)
    (h' : FileHistory config a (before ++ later) g) :
    g.status.pastReferral = true ∧ ∀ c ∈ later, ∃ d, c = .decision d := by
  induction later using List.reverseRecOn generalizing g with
  | nil =>
    rw [List.append_nil] at h'
    rw [h'.eq_foldl, ← h.eq_foldl]
    exact ⟨hf, nofun⟩
  | append_singleton later c ih =>
    rw [← List.append_assoc] at h'
    obtain ⟨g', hg', hc⟩ := h'.split rfl
    obtain ⟨hpast, hall⟩ := ih hg'
    obtain ⟨hstatus, hd⟩ := admits_pastReferral hpast hc
    refine ⟨h'.status_concat ▸ hstatus, fun x hx => ?_⟩
    obtain hx | hx := List.mem_append.mp hx
    · exact hall x hx
    · rw [List.mem_singleton.mp hx]
      exact hd

end FileHistory

/-! ## Sessions -/

namespace Entry

/-- The outcome that the visit answered with, having evaluated the file of a policy. -/
def outcome? (k : PolicyId) (e : Entry) : Option (EvaluationOutcome Float) :=
  match e.visit.call, e.reply with
  | .evaluate policyId, .outcome (.ok outcome) => if policyId = k then some outcome else none
  | _, _ => none

/-- What the visit changed the file of a policy by. A visit is one call, so it cannot be both. -/
def change? (k : PolicyId) (e : Entry) : Option Change :=
  match e.outcome? k with
  | some outcome => some (.evaluation outcome)
  | none => (e.decision? k).map .decision

variable {config : EvaluationConfig Float} {k : PolicyId} {e : Entry}

theorem outcome?_eq_some {outcome : EvaluationOutcome Float} :
    e.outcome? k = some outcome ↔
      e.visit.call = .evaluate k ∧ e.reply = .outcome (.ok outcome) := by
  unfold outcome?
  split
  · rename_i policyId outcome' hc hr
    by_cases hk : policyId = k <;> simp [hc, hr, hk]
  · rename_i hnot
    exact ⟨nofun, fun ⟨hc, hr⟩ => (hnot _ _ hc hr).elim⟩

private theorem outcome?_of_not_evaluates (h : e.evaluates k = false) : e.outcome? k = none := by
  rw [Option.eq_none_iff_forall_ne_some]
  intro outcome ho
  obtain ⟨hc, hr⟩ := outcome?_eq_some.mp ho
  simp [evaluates, hc, hr] at h

theorem change?_of_outcome? {outcome : EvaluationOutcome Float}
    (h : e.outcome? k = some outcome) : e.change? k = some (.evaluation outcome) := by
  simp [change?, h]

/-- A visit that changes a file by a decision took it. -/
theorem decision?_of_change? {d : Decision} (h : e.change? k = some (.decision d)) :
    e.decision? k = some d := by
  unfold change? at h
  split at h
  · cases h
  · simpa using h

private theorem Idle.change? (h : e.Idle config k) : e.change? k = none := by
  simp [Entry.change?, outcome?_of_not_evaluates h.evaluation, h.decision]

end Entry

namespace Session

/-- The changes of the file of a policy. -/
def changes (k : PolicyId) (past : List Entry) : List Change := past.filterMap (Entry.change? k)

theorem changes_append (k : PolicyId) (past later : List Entry) :
    changes k (past ++ later) = changes k past ++ changes k later :=
  List.filterMap_append

theorem changes_cons (k : PolicyId) (e : Entry) (later : List Entry) :
    changes k (e :: later) = (e.change? k).toList ++ changes k later := by
  cases h : e.change? k <;> simp [changes, h]

theorem mem_changes {k : PolicyId} {past : List Entry} {c : Change} :
    c ∈ changes k past ↔ ∃ e ∈ past, e.change? k = some c :=
  List.mem_filterMap

end Session

open Session (changes)

/-- What there is of a file, if anything, is what the changes made it. A policy without a file has
seen no change. -/
def Recorded (config : EvaluationConfig Float) (past : List Entry) (k : PolicyId) :
    Option UnderwritingFile → Prop
  | none => changes k past = []
  | some f => FileHistory config f.assessment (changes k past) f

/-- A visit keeps the history of a file. -/
theorem Recorded.next {config : EvaluationConfig Float} {past : List Entry} {k : PolicyId}
    {e : Entry} {file file' : Option UnderwritingFile} (h : Recorded config past k file)
    (he : e.OnFile config k file file') : Recorded config (past ++ [e]) k file' := by
  have happend : changes k (past ++ [e]) = changes k past ++ (e.change? k).toList := by
    rw [Session.changes_append, Session.changes_cons]
    simp [changes]
  cases he with
  | idle _ hi =>
    cases file with
    | none => simpa [Recorded, happend, hi.change?] using h
    | some f => simpa [Recorded, happend, hi.change?] using h
  | opened a _ _ _ hd hev =>
    have hnone : e.change? k = none := by
      simp [Entry.change?, Entry.outcome?_of_not_evaluates hev, hd]
    have hempty : changes k past = [] := h
    rw [Recorded, happend, hnone, hempty]
    exact .opened
  | evaluated f hc hr hm =>
    have hchange : e.change? k = some (.evaluation (config.evaluate f.assessment)) :=
      Entry.change?_of_outcome? (Entry.outcome?_eq_some.mpr ⟨hc, hr⟩)
    rw [Recorded, happend, hchange]
    exact .changed _ h ⟨hm, fun _ heq => by cases heq; rfl⟩
  | decided f d proposal decidedBy now hc hok hp hm =>
    have hnone : e.outcome? k = none :=
      Entry.outcome?_of_not_evaluates (by simp [Entry.evaluates, hc])
    have hchange : e.change? k = some (.decision d) := by
      simp [Entry.change?, hnone, Entry.decision?_of_accepted hc hok hp]
    rw [Recorded, happend, hchange]
    exact .changed _ h ⟨hm, fun _ heq => by cases heq⟩

namespace Session

variable {config : EvaluationConfig Float}

theorem recorded (visits : List Visit) (k : PolicyId) :
    Recorded config (run config visits).past k ((run config visits).desk.files.find? k) :=
  induction (P := fun s => Recorded config s.past k (s.desk.files.find? k)) rfl
    (fun _ _ _ _ _ ih he => ih.next (he.onFile k)) visits

/-- **Every file has its history.** -/
theorem history {visits : List Visit} {k : PolicyId} {f : UnderwritingFile}
    (h : (run config visits).desk.files.find? k = some f) :
    FileHistory config f.assessment (changes k (run config visits).past) f := by
  have hrecorded : Recorded config _ k _ := recorded visits k
  rwa [h] at hrecorded

/-- A file that was changed is there. -/
theorem found_of_changed {visits : List Visit} {k : PolicyId} {c : Change}
    (h : c ∈ changes k (run config visits).past) :
    ∃ f, (run config visits).desk.files.find? k = some f := by
  cases hf : (run config visits).desk.files.find? k with
  | some f => exact ⟨f, rfl⟩
  | none =>
    have hrecorded : Recorded config _ k _ := recorded visits k
    rw [hf] at hrecorded
    have hempty : changes k (run config visits).past = [] := hrecorded
    rw [hempty] at h
    cases h

end Session

end PolicyDesk
