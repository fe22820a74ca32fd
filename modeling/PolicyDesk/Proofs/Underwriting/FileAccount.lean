import Mathlib.Data.List.Chain
import PolicyDesk.Proofs.Assessment.Admissible
import PolicyDesk.Proofs.Desk.Sessions

/-!
# The account of an underwriting file

A session tells, for each policy, which calls opened its file, decided on it and evaluated it, and
which statuses the file has held.

- **Visits** (`Entry.OnFile`, `Effect.onFile`): a visit leaves the file of a policy alone, opens it,
  evaluates it or decides on it.
- **Accounts** (`FileAccount`, `Session.file_account`): every stored file is what the visits made
  it.
-/

namespace PolicyDesk

open WorkflowStatus (allowedNext)

/-! ## What a session tells of a policy -/

namespace Entry

/-- The assessment that the visit opened the file of a policy with. A refused visit opened none. -/
def opening? (config : EvaluationConfig Float) (k : PolicyId) (e : Entry) :
    Option (Assessment Float) :=
  if e.reply.isOk then (e.visit.call.assessment? config).filter fun a => a.policyId = k else none

/-- The decision that the visit took on the file of a policy. It is the decision as it was made of
the proposal. -/
def decision? (k : PolicyId) (e : Entry) : Option Decision :=
  match e.visit.call with
  | .decide policyId proposal decidedBy now =>
    if policyId = k ∧ e.reply.isOk then (Decision.ofProposal proposal decidedBy now).toOption
    else none
  | _ => none

/-- The visit evaluated the file of a policy. -/
def evaluates (k : PolicyId) (e : Entry) : Bool :=
  match e.visit.call with
  | .evaluate policyId => decide (policyId = k) && e.reply.isOk
  | _ => false

/-- The status of the file of a policy after the visit. -/
def status? (k : PolicyId) (e : Entry) : Option UnderwritingStatus :=
  (e.after.files.find? k).map (·.status)

/-- The visit did nothing to the file of a policy. -/
structure Idle (config : EvaluationConfig Float) (k : PolicyId) (e : Entry) : Prop where
  opening : e.opening? config k = none
  decision : e.decision? k = none
  evaluation : e.evaluates k = false

end Entry

namespace Session

/-- The assessments that opened the file of a policy. -/
def openings (config : EvaluationConfig Float) (k : PolicyId) (past : List Entry) :
    List (Assessment Float) :=
  past.filterMap (Entry.opening? config k)

/-- The decisions taken on the file of a policy. -/
def decisions (k : PolicyId) (past : List Entry) : List Decision :=
  past.filterMap (Entry.decision? k)

/-- How many times the file of a policy was evaluated. -/
def evaluations (k : PolicyId) (past : List Entry) : Nat := past.countP (Entry.evaluates k)

/-- Notes a status, unless it is the one noted last. -/
def noteStatus (held : List UnderwritingStatus) (status : UnderwritingStatus) :
    List UnderwritingStatus :=
  if held.getLast? = some status then held else held ++ [status]

/-- The statuses that the file of a policy has held, one after the other. A status that is held for
several visits is noted once. -/
def held (k : PolicyId) (past : List Entry) : List UnderwritingStatus :=
  (past.filterMap (Entry.status? k)).foldl noteStatus []

variable (config : EvaluationConfig Float) (k : PolicyId) (past : List Entry) (e : Entry)

private theorem openings_append_one :
    openings config k (past ++ [e]) = openings config k past ++ (e.opening? config k).toList := by
  rw [openings, List.filterMap_append]
  cases h : e.opening? config k <;> simp [openings, h]

theorem decisions_append_one :
    decisions k (past ++ [e]) = decisions k past ++ (e.decision? k).toList := by
  rw [decisions, List.filterMap_append]
  cases h : e.decision? k <;> simp [decisions, h]

private theorem evaluations_append_one :
    evaluations k (past ++ [e]) = evaluations k past + (e.evaluates k).toNat := by
  rw [evaluations, List.countP_append]
  cases h : e.evaluates k <;> simp [evaluations, h]

theorem held_append_one :
    held k (past ++ [e]) =
      match e.status? k with
      | none => held k past
      | some status => noteStatus (held k past) status := by
  rw [held, List.filterMap_append, List.foldl_append]
  cases h : e.status? k <;> simp [held, h]

end Session

open Session (openings decisions evaluations held noteStatus)

/-- A stored file is what the session made of it. The file is opened once, and each decision and
each evaluation is one revision and one move along the graph. -/
structure FileAccount (config : EvaluationConfig Float) (past : List Entry) (k : PolicyId)
    (f : UnderwritingFile) : Prop where
  keyed : f.policyId = k
  named : PolicyNamed k
  opened : openings config k past = [f.assessment]
  evaluated : f.evaluation = none ∨ f.evaluation = some (config.evaluate f.assessment)
  decided : f.decisions = decisions k past
  counted : f.revision = UInt64.ofNat ((decisions k past).length + evaluations k past)
  first : (held k past).head? = some .pendingReview
  last : (held k past).getLast? = some f.status
  moves : (held k past).IsChain fun s t => t ∈ allowedNext s
  steps : (held k past).length = (decisions k past).length + evaluations k past + 1

/-- The session has done nothing for a policy. -/
structure Untouched (config : EvaluationConfig Float) (past : List Entry) (k : PolicyId) :
    Prop where
  noOpening : openings config k past = []
  noDecision : decisions k past = []
  noEvaluation : evaluations k past = 0
  noStatus : held k past = []

/-- What there is of a file, if anything, is accounted for. A policy without a file was left alone
by all visits. -/
def Accounted (config : EvaluationConfig Float) (past : List Entry) (k : PolicyId) :
    Option UnderwritingFile → Prop
  | none => Untouched config past k
  | some f => FileAccount config past k f

/-! ## One more visit -/

theorem UnderwritingStatus.not_mem_allowedNext_self (s : UnderwritingStatus) :
    s ∉ allowedNext s := by
  cases s <;> decide

section

variable {config : EvaluationConfig Float} {past : List Entry} {k : PolicyId} {e : Entry}

/-- A visit that leaves the file of a policy as it is adds no status to those held. -/
theorem Accounted.held_unmoved {file : Option UnderwritingFile} (h : Accounted config past k file)
    (hafter : e.after.files.find? k = file) : held k (past ++ [e]) = held k past := by
  cases file with
  | none => simp [Session.held_append_one, Entry.status?, hafter]
  | some f => simp [Session.held_append_one, Entry.status?, hafter, noteStatus, FileAccount.last h]

/-- A visit that does nothing to the file of a policy keeps the account. -/
theorem Accounted.idle {file : Option UnderwritingFile} (h : Accounted config past k file)
    (hi : e.Idle config k) (hafter : e.after.files.find? k = file) :
    Accounted config (past ++ [e]) k file := by
  have hopen : openings config k (past ++ [e]) = openings config k past := by
    simp [Session.openings_append_one, hi.opening]
  have hdec : decisions k (past ++ [e]) = decisions k past := by
    simp [Session.decisions_append_one, hi.decision]
  have heval : evaluations k (past ++ [e]) = evaluations k past := by
    simp [Session.evaluations_append_one, hi.evaluation]
  have hheld := h.held_unmoved hafter
  cases file with
  | none =>
    exact ⟨hopen ▸ h.noOpening, hdec ▸ h.noDecision, heval ▸ h.noEvaluation, hheld ▸ h.noStatus⟩
  | some f =>
    exact
      { keyed := h.keyed
        named := h.named
        opened := hopen ▸ h.opened
        evaluated := h.evaluated
        decided := hdec ▸ h.decided
        counted := by rw [hdec, heval]; exact h.counted
        first := hheld ▸ h.first
        last := hheld ▸ h.last
        moves := hheld ▸ h.moves
        steps := by rw [hheld, hdec, heval]; exact h.steps }

/-- A visit that opens the file of a policy starts its account. -/
theorem Untouched.opened_by {a : Assessment Float} (h : Untouched config past a.policyId)
    (hn : PolicyNamed a.policyId) (ho : e.opening? config a.policyId = some a)
    (hd : e.decision? a.policyId = none) (he : e.evaluates a.policyId = false)
    (hafter : e.after.files.find? a.policyId = some (.ofAssessment a)) :
    FileAccount config (past ++ [e]) a.policyId (.ofAssessment a) := by
  have hdec : decisions a.policyId (past ++ [e]) = [] := by
    simp [Session.decisions_append_one, hd, h.noDecision]
  have heval : evaluations a.policyId (past ++ [e]) = 0 := by
    simp [Session.evaluations_append_one, he, h.noEvaluation]
  have hheld : held a.policyId (past ++ [e]) = [.pendingReview] := by
    simp [Session.held_append_one, Entry.status?, hafter, noteStatus, h.noStatus,
      UnderwritingFile.ofAssessment]
  exact
    { keyed := rfl
      named := hn
      opened := by
        rw [Session.openings_append_one, ho, h.noOpening]
        rfl
      evaluated := .inl rfl
      decided := hdec.symm
      counted := by rw [hdec, heval]; rfl
      first := by rw [hheld]; rfl
      last := by rw [hheld]; rfl
      moves := by rw [hheld]; exact .singleton _
      steps := by rw [hheld, hdec, heval]; rfl }

/-- A move along the graph extends the statuses held by one. -/
theorem FileAccount.held_append {f : UnderwritingFile} (h : FileAccount config past k f)
    {status : UnderwritingStatus} (hmove : status ∈ allowedNext f.status)
    (hstatus : e.status? k = some status) :
    held k (past ++ [e]) = held k past ++ [status] := by
  have hne : ¬ (held k past).getLast? = some status := by
    rw [h.last]
    rintro heq
    cases heq
    exact UnderwritingStatus.not_mem_allowedNext_self _ hmove
  rw [Session.held_append_one, hstatus]
  exact if_neg hne

/-- A visit that moves the file along the graph, with the decision or the evaluation that it is
accounted for by. One of the two, which is what `hone` says, so that the revision counts both
together. -/
theorem FileAccount.moved {f f' : UnderwritingFile} (h : FileAccount config past k f)
    (ha : f'.assessment = f.assessment) (hr : f'.revision = f.revision + 1)
    (hmove : f'.status ∈ allowedNext f.status) (ho : e.opening? config k = none)
    (hafter : e.after.files.find? k = some f')
    (hev : f'.evaluation = f.evaluation ∨ f'.evaluation = some (config.evaluate f.assessment))
    (hdec : f'.decisions = f.decisions ++ (e.decision? k).toList)
    (hone : (e.decision? k).toList.length + (e.evaluates k).toNat = 1) :
    FileAccount config (past ++ [e]) k f' := by
  have hheld : held k (past ++ [e]) = held k past ++ [f'.status] :=
    h.held_append hmove (by simp [Entry.status?, hafter])
  have hcount : (decisions k (past ++ [e])).length + evaluations k (past ++ [e]) =
      (decisions k past).length + evaluations k past + 1 := by
    rw [Session.decisions_append_one, Session.evaluations_append_one, List.length_append]
    omega
  exact
    { keyed := by rw [← h.keyed, UnderwritingFile.policyId, ha, UnderwritingFile.policyId]
      named := h.named
      opened := by rw [Session.openings_append_one, ho, h.opened, ha]; rfl
      evaluated := by
        obtain hev | hev := hev
        · rw [hev, ha]
          exact h.evaluated
        · exact .inr (by rw [hev, ha])
      decided := by rw [Session.decisions_append_one, hdec, h.decided]
      counted := by rw [hcount, hr, h.counted, ← UInt64.ofNat_one, ← UInt64.ofNat_add]
      first := by rw [hheld, List.head?_append, h.first]; rfl
      last := by rw [hheld, List.getLast?_append]; rfl
      moves := by
        rw [hheld]
        refine h.moves.append (.singleton _) fun s hs t ht => ?_
        rw [h.last] at hs
        cases hs
        cases ht
        exact hmove
      steps := by rw [hheld, hcount, List.length_append, h.steps]; rfl }

end

/-! ## Every visit -/

namespace Entry

variable {config : EvaluationConfig Float} {e : Entry}

private theorem idle_of_failed (h : e.reply.isOk = false) (k : PolicyId) : e.Idle config k where
  opening := by simp [opening?, h]
  decision := by
    unfold decision?
    split <;> simp [h]
  evaluation := by
    unfold evaluates
    split <;> simp [h]

private theorem idle_of_call (ha : e.visit.call.assessment? config = none)
    (hd : ∀ policyId proposal decidedBy now,
      e.visit.call ≠ .decide policyId proposal decidedBy now)
    (he : ∀ policyId, e.visit.call ≠ .evaluate policyId) (k : PolicyId) : e.Idle config k where
  opening := by simp [opening?, ha]
  decision := by
    unfold decision?
    split
    · rename_i h
      exact absurd h (hd _ _ _ _)
    · rfl
  evaluation := by
    unfold evaluates
    split
    · rename_i h
      exact absurd h (he _)
    · rfl

private theorem idle_of_query (h : e.visit.call.isQuery = true)
    (k : PolicyId) : e.Idle config k := by
  refine idle_of_call ?_ ?_ ?_ k
  · cases hc : e.visit.call <;> rw [hc] at h <;> cases h <;> rfl
  · intro _ _ _ _ hc
    rw [hc] at h
    cases h
  · intro _ hc
    rw [hc] at h
    cases h

/-- A decision that is accepted is taken. -/
theorem decision?_of_accepted {k : PolicyId} {proposal : ProposedDecision} {decidedBy : String}
    {now : Instant} {d : Decision} (hc : e.visit.call = .decide k proposal decidedBy now)
    (hok : e.reply.isOk = true) (hp : Decision.ofProposal proposal decidedBy now = .ok d) :
    e.decision? k = some d := by
  simp [decision?, hc, hok, hp, toOption_eq_some]

private theorem of_assessment {a : Assessment Float} (h : e.visit.call.assessment? config = some a)
    (k : PolicyId) : e.decision? k = none ∧ e.evaluates k = false := by
  unfold decision? evaluates
  constructor <;>
  · split
    · rename_i hc
      rw [hc] at h
      cases h
    · rfl

end Entry

theorem Call.policyNamed_of_assessment {config : EvaluationConfig Float} {c : Call}
    {a : Assessment Float} (h : c.assessment? config = some a) : PolicyNamed a.policyId := by
  cases c with
  | submit input now => exact AssessmentInput.policyNamed_of_build (toOption_eq_some.mp h)
  | score request now => exact EvaluationConfig.policyNamed_of_assess (toOption_eq_some.mp h)
  | _ => cases h

/-- What a visit does to the file of a policy: the file before it and the file after it. Its four
cases are the only ones (`Effect.onFile`). -/
inductive Entry.OnFile (config : EvaluationConfig Float) (k : PolicyId) (e : Entry) :
    Option UnderwritingFile → Option UnderwritingFile → Prop
  | idle (file : Option UnderwritingFile) : e.Idle config k → OnFile config k e file file
  | opened (a : Assessment Float) : a.policyId = k → PolicyNamed k → e.opening? config k = some a →
    e.decision? k = none → e.evaluates k = false →
    OnFile config k e none (some (.ofAssessment a))
  | evaluated (f : UnderwritingFile) : e.visit.call = .evaluate k →
    e.reply = .outcome (.ok (config.evaluate f.assessment)) →
    (config.evaluate f.assessment).recommendedStatus ∈ allowedNext f.status →
    OnFile config k e (some f) (some (f.withOutcome (config.evaluate f.assessment)))
  | decided (f : UnderwritingFile) (d : Decision) (proposal : ProposedDecision)
    (decidedBy : String) (now : Instant) : e.visit.call = .decide k proposal decidedBy now →
    e.reply.isOk = true → Decision.ofProposal proposal decidedBy now = .ok d →
    d.status ∈ allowedNext f.status → OnFile config k e (some f) (some (f.withDecision d))

section

variable {config : EvaluationConfig Float} {v : Visit} {desk desk' : Desk} {reply : Reply}

/-- A visit that puts a file in the place of one. -/
private theorem Entry.onFile_replaced {e : Entry} {f f' : UnderwritingFile}
    {referrals : List Referral}
    {expected : UInt64} (hs : desk.files.find? f.policyId = some f)
    (hu : (desk.told referrals).update (.file f') expected = .ok e.after)
    (hid : f'.policyId = f.policyId) (hidle : ∀ k, k ≠ f.policyId → e.Idle config k)
    (hchanged : e.OnFile config f.policyId (some f) (some f')) (k : PolicyId) :
    e.OnFile config k (desk.files.find? k) (e.after.files.find? k) := by
  have hfiles := Desk.find?_of_update_file hu k
  rw [hid] at hfiles
  rw [hfiles]
  by_cases hk : k = f.policyId
  · subst hk
    rw [hs, if_pos rfl]
    exact hchanged
  · rw [if_neg hk]
    exact .idle _ (hidle k hk)

theorem Amends.onFile {a : Amendment} (ha : Amends config v.call a)
    (ht : v.call.target? = some a.source.id) (hs : desk.stored? a.source.id = some a.source)
    (hu : (desk.told a.referral.toList).update a.changed a.source.revision = .ok desk')
    (k : PolicyId) :
    Entry.OnFile config k ⟨v, a.reply, desk'⟩ (desk.files.find? k) (desk'.files.find? k) := by
  obtain ⟨c, carrier⟩ := v
  simp only at ha ht
  cases ha with
  | evaluation policyId f ho hm =>
    obtain rfl : policyId = f.policyId := by simpa [Call.target?, Amendment.evaluation] using ht
    refine Entry.onFile_replaced (e := ⟨_, _, desk'⟩) (Desk.stored?_file_eq_some.mp hs) hu
      (UnderwritingFile.policyId_withOutcome ..) (fun k hk => ⟨?_, rfl, ?_⟩)
      (.evaluated f rfl rfl hm) k
    · simp [Entry.opening?, Call.assessment?]
    · simp [Entry.evaluates, Ne.symm hk]
  | decision policyId proposal decidedBy now f d hp ho hm =>
    obtain rfl : policyId = f.policyId := by simpa [Call.target?, Amendment.decision] using ht
    refine Entry.onFile_replaced (e := ⟨_, _, desk'⟩) (Desk.stored?_file_eq_some.mp hs) hu
      (UnderwritingFile.policyId_withDecision ..) (fun k hk => ⟨?_, ?_, rfl⟩)
      (.decided f d proposal decidedBy now rfl rfl hp hm) k
    · simp [Entry.opening?, Call.assessment?]
    · simp [Entry.decision?, Ne.symm hk]
  | move claimId request now cl hm =>
    have hfiles : desk'.files = (desk.told []).files := Desk.files_of_update_claim hu
    rw [hfiles]
    refine .idle _ (Entry.idle_of_call rfl ?_ ?_ k)
    all_goals simp

/-- **Every visit to a file.** Visits about other policies and about claims are idle here. -/
theorem Effect.onFile (he : Effect config v desk reply desk') (k : PolicyId) :
    Entry.OnFile config k ⟨v, reply, desk'⟩ (desk.files.find? k) (desk'.files.find? k) := by
  cases he with
  | kept _ hc =>
    obtain hc | hc := hc
    · exact .idle _ (Entry.idle_of_query hc k)
    · exact .idle _ (Entry.idle_of_failed hc k)
  | wasted request e hc hb hi => exact .idle _ (Entry.idle_of_failed rfl k)
  | openedFile a _ ha hi =>
    have hfiles := Desk.find?_of_insert_file hi k
    rw [UnderwritingFile.policyId_ofAssessment] at hfiles
    obtain ⟨hd, hev⟩ := Entry.of_assessment (e := ⟨v, .file (.ok (.ofAssessment a)), desk'⟩) ha k
    rw [hfiles]
    by_cases hk : k = a.policyId
    · subst hk
      have hfree : desk.files.find? a.policyId = none := by
        simpa [Desk.stored?] using Desk.free_of_insert hi
      rw [hfree, if_pos rfl]
      exact .opened a rfl (Call.policyNamed_of_assessment ha) (by simp [Entry.opening?, ha]) hd hev
    · rw [if_neg hk]
      refine .idle _ ⟨?_, hd, hev⟩
      simp [Entry.opening?, ha, Ne.symm hk]
  | openedClaim request _ hc hb hi =>
    have hfiles : desk'.files = desk.drawNumber.files := Desk.files_of_insert_claim hi
    rw [hfiles]
    refine .idle _ (Entry.idle_of_call ?_ ?_ ?_ k)
    all_goals simp [hc, Call.assessment?]
  | amended a _ ha ht hs hr hu => exact ha.onFile ht hs hu k

/-- A file stays, with its assessment. -/
theorem Effect.file_kept (he : Effect config v desk reply desk') {k : PolicyId}
    {f : UnderwritingFile} (hf : desk.files.find? k = some f) :
    ∃ g, desk'.files.find? k = some g ∧ g.assessment = f.assessment := by
  have hfile := he.onFile k
  rw [hf] at hfile
  generalize desk'.files.find? k = file' at hfile
  cases hfile with
  | idle _ _ => exact ⟨f, rfl, rfl⟩
  | evaluated _ _ _ _ => exact ⟨_, rfl, rfl⟩
  | decided _ _ _ _ _ _ _ _ _ => exact ⟨_, rfl, rfl⟩

end

/-- A visit keeps the account of a file. One case for each thing that a visit can do. -/
theorem Accounted.next {config : EvaluationConfig Float} {past : List Entry} {k : PolicyId}
    {e : Entry} {file : Option UnderwritingFile} (h : Accounted config past k file)
    (he : e.OnFile config k file (e.after.files.find? k)) :
    Accounted config (past ++ [e]) k (e.after.files.find? k) := by
  generalize hafter : e.after.files.find? k = file' at he
  cases he with
  | idle _ hi => exact h.idle hi hafter
  | opened a hk hn ho hd hev =>
    subst hk
    exact Untouched.opened_by h hn ho hd hev hafter
  | evaluated f hc hr hm =>
    exact FileAccount.moved h rfl rfl hm (by simp [Entry.opening?, hc, Call.assessment?]) hafter
      (.inr rfl) (by simp [UnderwritingFile.withOutcome, Entry.decision?, hc])
      (by simp [Entry.decision?, Entry.evaluates, hc, hr])
  | decided f d proposal decidedBy now hc hok hp hm =>
    have hd : e.decision? k = some d := Entry.decision?_of_accepted hc hok hp
    exact FileAccount.moved h rfl rfl hm (by simp [Entry.opening?, hc, Call.assessment?]) hafter
      (.inl rfl) (by rw [hd]; rfl) (by simp [hd, Entry.evaluates, hc])

namespace Session

variable {config : EvaluationConfig Float}

theorem accounted (visits : List Visit) (k : PolicyId) :
    Accounted config (run config visits).past k ((run config visits).desk.files.find? k) := by
  revert k
  refine induction (P := fun s => ∀ k, Accounted config s.past k (s.desk.files.find? k))
    ?_ ?_ visits
  · exact fun k => ⟨rfl, rfl, rfl, rfl⟩
  · exact fun s v reply desk' hk ih he k => (ih k).next (he.onFile k)

/-- **Files.** Every file found after some visits is what the visits made of it, and no other file
is found under an id that differs from its own only in the white space around it. -/
theorem file_account (visits : List Visit) {k : PolicyId} {f : UnderwritingFile}
    (h : (run config visits).desk.files.find? k = some f) :
    FileAccount config (run config visits).past k f ∧
      ∀ k' f', (run config visits).desk.files.find? k' = some f' → Text.trim k' = Text.trim k →
        k' = k := by
  have found {k f} (h : (run config visits).desk.files.find? k = some f) :
      FileAccount config (run config visits).past k f := by
    have hacc : Accounted config _ k _ := accounted visits k
    rwa [h] at hacc
  exact ⟨found h, fun k' f' h' htrim => (found h').named.eq_of_trim (found h).named htrim⟩

/-- A file is submitted, referred to the carrier by its evaluation and then approved. -/
theorem file_account_of_referral :
    let visits : List Visit :=
      [⟨.submit ⟨" pol-1 ", 85, none, [⟨"CLAIMS_HISTORY", 85, 1, none⟩], "ana", none⟩ ⟨0, 0⟩,
          .ok ()⟩,
       ⟨.evaluate "pol-1", .ok ()⟩,
       ⟨.decide "pol-1" ⟨"APPROVED", none, none⟩ "ana" ⟨60, 0⟩, .ok ()⟩]
    ∃ f, (run .standard visits).desk.files.find? "pol-1" = some f ∧ f.status = .approved ∧
      FileAccount .standard (run .standard visits).past "pol-1" f := by
  intro visits
  have hfound : ((run .standard visits).desk.files.find? "pol-1").map (·.status) =
      some .approved := by
    decide +kernel
  obtain ⟨f, hf, hstatus⟩ := Option.map_eq_some_iff.mp hfound
  exact ⟨f, hf, hstatus, (file_account visits hf).1⟩

end Session

end PolicyDesk
