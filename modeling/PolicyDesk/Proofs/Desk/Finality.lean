import PolicyDesk.Proofs.Assessment.Admissible
import PolicyDesk.Proofs.Desk.Referrals
import PolicyDesk.Proofs.Desk.Runs

/-!
# Final files

A file that was approved or declined stays as it is, whatever calls come after and whatever steps
are still due of the calls that had read it before (`Floor.final`, `Floor.Final`).

- **First steps** (`Call.Ends`): a call about a final file ends with its first step. An evaluation
  and a decision find the file final, a new assessment finds its policy taken, and the queue leaves
  the file out.
- **Writes** (`Floor.holds`, `Floor.Holds.stale`): no step stores the file again. A draft was made
  of a file that was open, so a write of it would have to find the revision of the open file back,
  and no two commits to a record leave the same revision.
- **Waiting calls** (`Floor.Waiting`): a call that had taken no step when the file became final
  reads nothing of the file but what it is now (`Floor.reads`), so it tells the carrier nothing of
  it (`Floor.unreferred`).
-/

namespace PolicyDesk

/-! ## Files in order -/

namespace Desk

variable {desk desk' : Desk} {record : Stored}

private theorem indexed_of_insert (h : desk.files.Indexed) (hi : desk.insert record = .ok desk') :
    desk'.files.Indexed := by
  cases record with
  | file f =>
    obtain ⟨files, hf, rfl⟩ := map_eq_ok.mp hi
    exact h.of_insert hf
  | claim c => rwa [files_of_insert_claim hi]

private theorem indexed_of_update (h : desk.files.Indexed) {expected : UInt64}
    (hu : desk.update record expected = .ok desk') : desk'.files.Indexed := by
  cases record with
  | file f =>
    obtain ⟨files, hf, rfl⟩ := map_eq_ok.mp hu
    exact h.of_update hf
  | claim c => rwa [files_of_update_claim hu]

end Desk

/-- A step that inserts or updates a record keeps the files filed under their own policy ids. The
other steps leave them alone. -/
theorem Advance.indexed {config : EvaluationConfig Float} {v : Visit} {desk desk' : Desk}
    {own : List Event} {rest : Script Reply} {event : Option Event}
    (ha : Advance config v desk own rest desk' event) (h : desk.files.Indexed) :
    desk'.files.Indexed := by
  cases ha with
  | openedFile a _ _ _ hi => exact Desk.indexed_of_insert h hi
  | openedClaim request _ _ _ _ hi =>
    have hdrawn : desk.drawNumber.files.Indexed := h
    exact Desk.indexed_of_insert hdrawn hi
  | committed a _ _ _ _ hu => exact Desk.indexed_of_update h hu
  | _ => exact h

theorem Floor.indexed {config : EvaluationConfig Float} (moves : List Move) :
    (run config moves).desk.files.Indexed :=
  induction (P := fun floor => floor.desk.files.Indexed) .empty (fun _ _ _ h => h)
    (fun _ _ _ _ _ _ _ h _ _ ha => ha.indexed h) moves

/-! ## Calls about a final file -/

/-- The policy that a call opens a file for, if its input breaks no rule. What is trimmed here is
what `AssessmentInput.build` keeps as the id of the policy. -/
def Call.policy? : Call → Option PolicyId
  | .submit input _ => some (Text.trim input.policyId)
  | .score request _ => some (Text.trim request.policyId)
  | _ => none

theorem Call.policyId_of_assessment {config : EvaluationConfig Float} {c : Call}
    {a : Assessment Float} (h : c.assessment? config = some a) : c.policy? = some a.policyId := by
  cases c with
  | submit input now =>
    obtain ⟨-, hpolicy, -⟩ := AssessmentInput.build_eq_ok.mp (toOption_eq_some.mp h)
    exact congrArg some hpolicy.symm
  | score request now =>
    obtain ⟨input, hinput, hbuild⟩ := EvaluationConfig.build_of_assess (toOption_eq_some.mp h)
    obtain ⟨-, hpolicy, -⟩ := AssessmentInput.build_eq_ok.mp hbuild
    rw [hinput] at hpolicy
    exact congrArg some hpolicy.symm
  | _ => cases h

/-- On every desk with the file, the call ends with its first step and such a reply. The carrier
does not matter, as the call does not come to a referral. -/
def Call.Ends (config : EvaluationConfig Float) (f : UnderwritingFile) (Q : Reply → Prop)
    (c : Call) : Prop :=
  ∀ carrier desk, desk.stored? (.file f.policyId) = some (.file f) → desk.files.Indexed →
    ∃ reply, ((c.script config).turn carrier desk).rest = .done reply ∧ Q reply

namespace UnderwritingFile

variable {config : EvaluationConfig Float} {f : UnderwritingFile}

open Script (turn_done turn_step)

/-- A call that reads a final file and makes nothing of it. -/
private theorem ends_of_reading {c : Call} (reply : Reply) {Q : Reply → Prop} (hq : Q reply)
    (hscript : c.script config = c.reading config (.file f.policyId))
    (hconsider : c.consider config (.file f) = .error reply) : c.Ends config f Q := by
  intro carrier desk hf _
  refine ⟨reply, ?_, hq⟩
  rw [hscript, Call.reading, turn_step (DeskOp.apply_fetch _) (by simp), hf]
  simp only [Call.proceed, hconsider]

theorem ends_evaluate (hterm : f.status.isTerminal = true) :
    (Call.evaluate f.policyId).Ends config f
      (· = .outcome (.error (.finalized f.policyId f.status))) := by
  refine ends_of_reading _ rfl rfl ?_
  rw [Call.consider, evaluated_of_terminal hterm]
  rfl

/-- A proposal that breaks a rule is refused before anything is read, and any other finds the file
final. -/
theorem ends_decide (hterm : f.status.isTerminal = true) (proposal : ProposedDecision)
    (decidedBy : String) (now : Instant) :
    (Call.decide f.policyId proposal decidedBy now).Ends config f fun reply =>
      ∃ e, reply = .file (.error e) ∧
        (e = .finalized f.policyId f.status ∨ ∃ report, e = .violations report) := by
  cases hp : Decision.ofProposal proposal decidedBy now with
  | error report =>
    intro carrier desk _ _
    refine ⟨_, ?_, _, rfl, .inr ⟨report, rfl⟩⟩
    unfold Call.script
    simp only [hp]
    rw [turn_done]
  | ok d =>
    refine ends_of_reading (.file (.error (.finalized f.policyId f.status)))
      ⟨_, rfl, .inl rfl⟩ ?_ ?_
    · unfold Call.script
      simp only [hp]
    · unfold Call.consider
      simp only [hp, decided_of_terminal hterm]
      rfl

/-- A call that opens a file finds its policy taken. -/
theorem ends_opening {c : Call} (hpolicy : c.policy? = some f.policyId) :
    c.Ends config f fun reply => ∃ e, reply = .file (.error e) ∧
      (e = .store .conflict ∨ ∃ report, e = .violations report) := by
  obtain ⟨result, hscript, hresult, hfailed⟩ : ∃ result, c.script config = c.opening result ∧
      c.assessment? config = result.toOption ∧ ∀ e, c.failed e = .file (.error (.store e)) := by
    cases c with
    | submit input now => exact ⟨_, rfl, rfl, fun _ => rfl⟩
    | score request now => exact ⟨_, rfl, rfl, fun _ => rfl⟩
    | _ => cases hpolicy
  intro carrier desk hf _
  rw [hscript]
  cases result with
  | error report => exact ⟨_, rfl, _, rfl, .inr ⟨report, rfl⟩⟩
  | ok a =>
    have hsame : f.policyId = a.policyId :=
      Option.some.inj (hpolicy.symm.trans (Call.policyId_of_assessment hresult))
    rw [Call.opening]
    cases hi : desk.insert (.file (.ofAssessment a)) with
    | ok desk' =>
      have hfree := Desk.free_of_insert hi
      rw [Stored.id_file, policyId_ofAssessment, ← hsame, hf] at hfree
      cases hfree
    | error e =>
      obtain ⟨-, rfl⟩ := Shelf.insert_eq_error.mp (map_eq_error.mp hi)
      rw [turn_step (DeskOp.apply_insert_error hi) (by simp)]
      exact ⟨_, rfl, _, hfailed .conflict, .inl rfl⟩

/-- The queue is answered, and no file in it is that of the policy. -/
theorem ends_queue (hterm : f.status.isTerminal = true) (limit : Nat) :
    (Call.queue limit).Ends config f fun reply =>
      ∃ fs, reply = .files (.ok fs) ∧ ∀ g ∈ fs, g.policyId ≠ f.policyId := by
  intro carrier desk hf hindexed
  refine ⟨_, ?_, pendingFiles limit desk.files.records, rfl, fun g hg hpolicy => ?_⟩
  · unfold Call.script
    dsimp only
    rw [turn_step (DeskOp.apply_pending limit) (by simp)]
    rfl
  · -- The queue holds open files only, and the policy has one file.
    obtain ⟨hmem, hopen⟩ : g ∈ desk.files.records ∧ g.status.isTerminal = false := by
      simpa using List.mem_of_mem_take hg
    have hfound : desk.files.find? g.policyId = some g := hindexed.find?_of_mem hmem
    rw [Desk.stored?_file_eq_some, ← hpolicy, hfound] at hf
    cases hf
    rw [hterm] at hopen
    cases hopen

end UnderwritingFile

/-- Only open files are amended. The rules of an evaluation and of a decision both begin with that
check. -/
theorem Amends.open_of_file {config : EvaluationConfig Float} {c : Call} {a : Amendment}
    {f : UnderwritingFile} (h : Amends config c a) (hs : a.source = .file f) :
    f.status.isTerminal = false := by
  cases h with
  | evaluation policyId f₀ hopen _ =>
    cases hs
    exact hopen
  | decision policyId proposal decidedBy now f₀ d _ hopen _ =>
    cases hs
    exact hopen
  | move _ _ _ _ _ => cases hs

namespace Floor

variable {config : EvaluationConfig Float} {floor : Floor} {f : UnderwritingFile}

/-! ## The file stays -/

/-- The file is there, and no more commits were made to it than there are revisions. The bound is
what keeps a revision from naming two commits. -/
structure Holds (f : UnderwritingFile) (floor : Floor) : Prop where
  stored : floor.desk.stored? (.file f.policyId) = some (.file f)
  few : commitsOn (.file f.policyId) floor.trace ≤ UInt64.size

/-- A call that read the file when it was open does not find that revision any more. -/
theorem Holds.moved (h : floor.Holds f) (hsound : floor.Sound config)
    (hterm : f.status.isTerminal = true) {t : Nat} {c : Call} {a : Amendment}
    (hread : .read a.source ∈ floor.own t) (ha : Amends config c a)
    (hid : a.source.id = .file f.policyId) : f.revision ≠ a.source.revision := by
  intro hrev
  -- A revision names one commit of the trace, so the file would be the open one that was read.
  have hfound : floor.desk.stored? a.source.id = some (.file f) := hid ▸ h.stored
  have hfew : commitsOn a.source.id floor.trace ≤ UInt64.size := hid ▸ h.few
  obtain ⟨pre, post, hsplit⟩ := List.append_of_mem (mem_own.mp hread)
  obtain ⟨hsame, -⟩ := hsound.ledger.unchanged hsplit hfew hfound hrev
  rw [ha.open_of_file hsame.symm] at hterm
  cases hterm

theorem commitsOn_after {t : Nat} {v : Visit} {rest : Script Reply} {desk : Desk}
    {event : Option Event} {id : RecordId}
    (hother : ∀ record base, event = some (.wrote record base) → record.id ≠ id) :
    commitsOn id (floor.after t v rest desk event).trace = commitsOn id floor.trace := by
  rw [after, commitsOn_append]
  cases event with
  | none => rfl
  | some e =>
    have he : e.commitsTo id = false := by
      cases e with
      | wrote record base => simpa using hother record base rfl
      | _ => rfl
    simp [commitsOn, he]

/-- No step stores the file again. A step that did would store an amendment of the file as it was
when it was open. -/
theorem Holds.after (h : floor.Holds f) (hsound : floor.Sound config)
    (hterm : f.status.isTerminal = true) {t : Nat} {v : Visit} {rest : Script Reply} {desk : Desk}
    {event : Option Event} (ha : Advance config v floor.desk (floor.own t) rest desk event) :
    (floor.after t v rest desk event).Holds f := by
  have hother (record : Stored) (base : Option UInt64) (he : event = some (.wrote record base)) :
      record.id ≠ .file f.policyId := by
    subst he
    intro hid
    have hbase := ha.happens.base_of_wrote
    rw [hid, h.stored] at hbase
    -- A record that is opened must be new, and an amendment comes too late.
    obtain ⟨rfl, -⟩ | ⟨a, ham, hread, rfl, rfl⟩ := ha.wrote_cases
    · cases hbase
    · exact h.moved hsound hterm hread ham (ham.id_eq ▸ hid) (Option.some.inj hbase)
  exact ⟨(ha.happens.stored_of_other hother).trans h.stored,
    (commitsOn_after hother).trans_le h.few⟩

/-- A write of the file that is still due is stale. -/
theorem Holds.stale (h : floor.Holds f) (hsound : floor.Sound config)
    (hterm : f.status.isTerminal = true) {t : Nat} {task : Task}
    (ht : floor.tasks[t]? = some task) {changed : Stored} {expected : UInt64}
    {next : (DeskOp.update changed expected).Answer → Script Reply}
    (hrest : task.rest = .step (.update changed expected) next)
    (hid : changed.id = .file f.policyId) :
    (floor.advance t).desk = floor.desk ∧
      (floor.advance t).reply? t = some (task.visit.call.failed .stale) := by
  have hprogress := hsound.progress ht
  rw [hrest] at hprogress
  obtain ⟨a, ha, hown, rfl, rfl, hwrite⟩ := hprogress.writing_of_update
  have hread : .read a.source ∈ floor.own t := by simp [hown, Amendment.before]
  have hmoved := h.moved hsound hterm hread ha.amends (ha.amends.id_eq ▸ hid)
  have hfound : floor.desk.stored? a.changed.id = some (.file f) := hid ▸ h.stored
  have hstale : floor.desk.update a.changed a.source.revision = .error .stale :=
    Desk.update_of_moved hfound hmoved
  rw [advance_of_stale ht (hrest.trans hwrite) hstale]
  exact ⟨rfl, reply?_after_self ht _ _⟩

/-! ## Calls that were waiting -/

/-- The call of the ticket has taken no step. Calls that were given later on are waiting too, as
nothing is left of them yet. -/
structure Waiting (config : EvaluationConfig Float) (floor : Floor) (t : Nat) : Prop where
  silent : floor.own t = []
  whole : ∀ task, floor.tasks[t]? = some task → task.rest = task.visit.call.program config

private theorem waiting_of_ungiven (moves : List Move) {t : Nat}
    (ht : (run config moves).tasks.length ≤ t) : (run config moves).Waiting config t where
  silent := by
    have hsound : (run config moves).Sound config := sound moves
    exact hsound.own_eq_nil ht
  whole task htask := by
    rw [List.getElem?_eq_none ht] at htask
    cases htask

/-- What is left of a call that ends with its first step: all of it, or its reply. -/
def Task.Ending (config : EvaluationConfig Float) (Q : Reply → Prop) (task : Task) : Prop :=
  task.rest = task.visit.call.script config ∨ ∃ reply, task.rest = .done reply ∧ Q reply

theorem Task.Ending.turn {Q : Reply → Prop} {task : Task} (h : Task.Ending config Q task)
    (hends : task.visit.call.Ends config f Q) {desk : Desk}
    (hf : desk.stored? (.file f.policyId) = some (.file f)) (hindexed : desk.files.Indexed) :
    ∃ reply, (task.rest.turn task.visit.carrier desk).rest = .done reply ∧ Q reply := by
  obtain hscript | ⟨reply, hdone, hq⟩ := h
  · rw [hscript]
    exact hends task.visit.carrier desk hf hindexed
  · rw [hdone, Script.turn_done]
    exact ⟨reply, rfl, hq⟩

/-! ## Later floors -/

section

variable {moves : List Move} (h : (run config moves).Holds f) (hterm : f.status.isTerminal = true)

include h hterm

/-- The file is there as it was. -/
theorem holds (more : List Move) : (run config (moves ++ more)).Holds f :=
  induction_from (P := Holds f) moves h (fun _ _ _ h => ⟨h.stored, h.few⟩)
    (fun _ _ _ _ _ _ hsound h _ _ ha => h.after hsound hterm ha) more

/-- A call that was waiting has read nothing of the file but what it is. What it reads it reads on a
later floor, where the file is the same. -/
theorem reads {t : Nat} (ht : (run config moves).Waiting config t) (more : List Move)
    {record : Stored}
    (hread : .read record ∈ (run config (moves ++ more)).own t)
    (hid : record.id = .file f.policyId) : record = .file f := by
  revert record
  refine (induction_from (P := fun floor => floor.Holds f ∧ ∀ {record},
    .read record ∈ floor.own t → record.id = .file f.policyId → record = .file f)
    moves ⟨h, ?_⟩ ?_ ?_ more).2
  · intro record hread
    rw [ht.silent] at hread
    cases hread
  · exact fun floor v _ ⟨h, hreads⟩ => ⟨⟨h.stored, h.few⟩, hreads⟩
  · intro floor t' task rest desk event hsound ⟨h, hreads⟩ _ _ ha
    refine ⟨h.after hsound hterm ha, fun {record} hread hid => ?_⟩
    by_cases hne : t = t'
    · subst hne
      rw [own_after_self, List.mem_append, Option.mem_toList] at hread
      obtain hread | rfl := hread
      · exact hreads hread hid
      · have hfound := ha.happens.there_of_read
        rw [hid, h.stored] at hfound
        exact (Option.some.inj hfound).symm
    · rw [own_after_of_ne _ hne] at hread
      exact hreads hread hid

/-- A call that was waiting tells the carrier nothing of the file. -/
theorem unreferred {t : Nat} (ht : (run config moves).Waiting config t) (more : List Move)
    {r : Referral}
    (hr : ⟨t, .referred r⟩ ∈ (run config (moves ++ more)).trace) : r.policyId ≠ f.policyId := by
  intro hpolicy
  have hsound : (run config (moves ++ more)).Sound config := sound (moves ++ more)
  have htask := List.getElem?_eq_getElem (hsound.tickets _ hr)
  obtain ⟨a, ha, hreferral, hown⟩ := (hsound.progress htask).referred_cases (mem_own.mpr hr)
  obtain ⟨g, hchanged, -, hg⟩ := ha.amends.referred_of_referral ha.target hreferral
  have hread : .read a.source ∈ (run config (moves ++ more)).own t := by
    obtain ⟨hown, -⟩ | hown | ⟨hown, -⟩ := hown <;> simp [hown, Amendment.before]
  have hid : a.source.id = .file f.policyId := by
    rw [← ha.amends.id_eq, hchanged, Stored.id_file, hg, hpolicy]
  rw [ha.amends.open_of_file (reads h hterm ht more hread hid)] at hterm
  cases hterm

/-- A call that was waiting has taken no step, or has replied. -/
theorem ending {t : Nat} (ht : (run config moves).Waiting config t) {Q : Reply → Prop}
    (more : List Move) {task : Task}
    (htask : (run config (moves ++ more)).tasks[t]? = some task)
    (hends : task.visit.call.Ends config f Q) : Task.Ending config Q task := by
  -- Only a step of the call itself changes what is left of it, and such a step finds the file as it
  -- is now.
  induction more using List.reverseRecOn generalizing task with
  | nil =>
    rw [List.append_nil] at htask
    rw [Task.Ending, ht.whole task htask, Call.program_eq_script]
    exact .inl rfl
  | append_singleton more move ih =>
    rw [← List.append_assoc, run_append_one] at htask
    cases move with
    | start v =>
      obtain hold | ⟨-, rfl⟩ := task_of_start htask
      · exact ih hold hends
      · exact .inl (Call.program_eq_script config v.call)
    | advance t' =>
      by_cases hne : t = t'
      · subst hne
        cases hold : (run config (moves ++ more)).tasks[t]? with
        | none =>
          rw [step, advance_of_none hold, hold] at htask
          cases htask
        | some before =>
          rw [step, tasks_of_advance hold] at htask
          cases htask
          exact .inr ((ih hold hends).turn hends (holds h hterm more).stored (indexed _))
      · exact ih ((tasks_of_advance_ne hne).symm.trans htask) hends

/-- A call that was waiting and ends with its first step has such a reply after its next step. -/
theorem answered {t : Nat} (ht : (run config moves).Waiting config t) {Q : Reply → Prop}
    (more : List Move) {v : Visit}
    (hv : (run config (moves ++ more)).visit? t = some v) (hends : v.call.Ends config f Q) :
    ∃ reply, ((run config (moves ++ more)).advance t).reply? t = some reply ∧ Q reply := by
  obtain ⟨task, htask, rfl⟩ := Option.map_eq_some_iff.mp hv
  obtain ⟨reply, hdone, hq⟩ := (ending h hterm ht more htask hends).turn hends
    (holds h hterm more).stored (indexed _)
  refine ⟨reply, ?_, hq⟩
  rw [reply?, tasks_of_advance htask, hdone]
  rfl

end

/-! ## The theorem -/

/-- What a file is on a floor, and what calls find of it, once it was final on an earlier floor. A
call that was waiting there has such a reply after its next step. -/
structure Final (config : EvaluationConfig Float) (k : PolicyId) (f : UnderwritingFile)
    (first floor : Floor) : Prop where
  kept : floor.desk.files.find? k = some f
  evaluate : ∀ t v, first.Waiting config t → floor.visit? t = some v → v.call = .evaluate k →
    (floor.advance t).reply? t = some (.outcome (.error (.finalized k f.status)))
  decide : ∀ t v proposal decidedBy now, first.Waiting config t → floor.visit? t = some v →
    v.call = .decide k proposal decidedBy now → ∃ e,
      (floor.advance t).reply? t = some (.file (.error e)) ∧
        (e = .finalized k f.status ∨ ∃ report, e = .violations report)
  /-- A call that would open a file for the policy, by submission or by scoring. -/
  opening : ∀ t v, first.Waiting config t → floor.visit? t = some v → v.call.policy? = some k → ∃ e,
    (floor.advance t).reply? t = some (.file (.error e)) ∧
      (e = .store .conflict ∨ ∃ report, e = .violations report)
  queue : ∀ t v limit, first.Waiting config t → floor.visit? t = some v → v.call = .queue limit →
    ∃ fs, (floor.advance t).reply? t = some (.files (.ok fs)) ∧ ∀ g ∈ fs, g.policyId ≠ k
  /-- A write that is still due, of any call. -/
  stale : ∀ t task changed expected next, floor.tasks[t]? = some task →
    task.rest = .step (.update changed expected) next → changed.id = .file k →
    (floor.advance t).desk = floor.desk ∧
      (floor.advance t).reply? t = some (task.visit.call.failed .stale)
  unreferred : ∀ t r, first.Waiting config t → ⟨t, .referred r⟩ ∈ floor.trace → r.policyId ≠ k

/-- **Final files.** A file that was approved or declined is final on every later floor. The bound
on the commits to it is that of `no_lost_update`: there are no more of them than revisions. -/
theorem final (moves : List Move) {k : PolicyId} {f : UnderwritingFile}
    (hf : (run config moves).desk.files.find? k = some f)
    (hstatus : f.status = .approved ∨ f.status = .declined)
    (hfew : commitsOn (.file k) (run config moves).trace ≤ UInt64.size) (more : List Move) :
    Final config k f (run config moves) (run config (moves ++ more)) := by
  have hstored := Desk.stored?_file_eq_some.mpr hf
  have hsound : (run config moves).Sound config := sound moves
  obtain rfl : f.policyId = k := RecordId.file.inj (hsound.ledger.keyed _ _ hstored)
  have hterm : f.status.isTerminal = true := by
    obtain hs | hs := hstatus <;> rw [hs] <;> rfl
  have h : (run config moves).Holds f := ⟨hstored, hfew⟩
  exact
    { kept := Desk.stored?_file_eq_some.mp (holds h hterm more).stored
      evaluate := fun t v ht hv hcall => by
        obtain ⟨reply, hreply, rfl⟩ := answered h hterm ht more hv
          (hcall ▸ UnderwritingFile.ends_evaluate hterm)
        exact hreply
      decide := fun t v proposal decidedBy now ht hv hcall => by
        obtain ⟨reply, hreply, e, rfl, he⟩ := answered h hterm ht more hv
          (hcall ▸ UnderwritingFile.ends_decide hterm proposal decidedBy now)
        exact ⟨e, hreply, he⟩
      opening := fun t v ht hv hpolicy => by
        obtain ⟨reply, hreply, e, rfl, he⟩ := answered h hterm ht more hv
          (UnderwritingFile.ends_opening hpolicy)
        exact ⟨e, hreply, he⟩
      queue := fun t v limit ht hv hcall => by
        obtain ⟨reply, hreply, fs, rfl, hfs⟩ := answered h hterm ht more hv
          (hcall ▸ UnderwritingFile.ends_queue hterm limit)
        exact ⟨fs, hreply, hfs⟩
      stale := fun t task changed expected next ht hrest hid =>
        (holds h hterm more).stale (sound _) hterm ht hrest hid
      unreferred := fun t r ht hr => unreferred h hterm ht more hr }

/-- A file of low risk is submitted, and an evaluation reads it. -/
def reading : List Move :=
  [.start ⟨.submit ⟨"pol-1", 20, none, [⟨"CLAIMS_HISTORY", 20, 1, none⟩], "ana", none⟩ ⟨0, 0⟩,
      .ok ()⟩,
   .advance 0, .start ⟨.evaluate "pol-1", .ok ()⟩, .advance 1]

/-- A visit that decides on the file of a policy. -/
def deciding (k : PolicyId) (status : UnderwritingStatus) : Visit :=
  ⟨.decide k ⟨status.code, none, none⟩ "ana" ⟨60, 0⟩, .ok ()⟩

/-- A visit under a ticket, with no other call between its steps. -/
def alone (t : Nat) (v : Visit) : List Move := [.start v, .advance t, .advance t]

/-- The file is approved while the evaluation waits; then the evaluation writes it, and a call that
is started only now evaluates it. -/
theorem final_of_approval :
    let moves := reading ++ alone 2 (deciding "pol-1" .inReview) ++
      alone 3 (deciding "pol-1" .approved)
    let more : List Move := [.advance 1, .start ⟨.evaluate "pol-1", .ok ()⟩, .advance 4]
    ∃ f, (run .standard moves).desk.files.find? "pol-1" = some f ∧ f.status = .approved ∧
      commitsOn (.file "pol-1") (run .standard moves).trace ≤ UInt64.size ∧
      (run .standard moves).Waiting .standard 4 ∧
      Final .standard "pol-1" f (run .standard moves) (run .standard (moves ++ more)) := by
  intro moves more
  have hfound : ((run .standard moves).desk.files.find? "pol-1").map (·.status) =
      some .approved := by
    decide +kernel
  obtain ⟨f, hf, hstatus⟩ := Option.map_eq_some_iff.mp hfound
  have hfew : commitsOn (.file "pol-1") (run .standard moves).trace ≤ UInt64.size := by
    decide +kernel
  have hwaiting : (run .standard moves).Waiting .standard 4 :=
    waiting_of_ungiven moves (by decide +kernel)
  exact ⟨f, hf, hstatus, hfew, hwaiting, final moves hf (.inl hstatus) hfew more⟩

end Floor

end PolicyDesk
