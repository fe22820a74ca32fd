import Mathlib.Data.List.Nodup
import PolicyDesk.Proofs.Claims.Numbers
import PolicyDesk.Proofs.Desk.Runs
import PolicyDesk.Proofs.Desk.Sessions

/-!
# No update is lost

However the steps of calls follow each other, the records are those of a session that serves only
the calls that committed, one after the other (`Floor.no_lost_update`).

- **Simulation** (`Floor.Serial`): each commit is what serving the call at once, on the desk of that
  session, comes to. It rests on the ledger: a record at the revision that a call read is the record
  that it read.
- **Numbers**: a number of a claim that is drawn in vain leaves the session one behind, but then no
  claim can be opened any more (`Desk.Numbered`).
-/

namespace PolicyDesk

/-! ## Desks with the same records -/

/-- Two desks have the same records, in the same order. The referrals and the number of the next
claim may differ. -/
structure Desk.SameRecords (desk other : Desk) : Prop where
  files : desk.files = other.files
  claims : desk.claims = other.claims

namespace Desk.SameRecords

variable {desk other desk' : Desk} {record : Stored}

theorem stored? (h : desk.SameRecords other) (id : RecordId) :
    other.stored? id = desk.stored? id :=
  stored?_congr h.files.symm h.claims.symm id

/-- The same insertion has the same outcome. The two desks still have the same records afterwards.
-/
theorem insert (h : desk.SameRecords other) (hi : desk.insert record = .ok desk') :
    ∃ other', other.insert record = .ok other' ∧ desk'.SameRecords other' := by
  cases record with
  | file f =>
    obtain ⟨files, hf, rfl⟩ := map_eq_ok.mp hi
    exact ⟨_, map_eq_ok.mpr ⟨files, by rw [← h.files, hf], rfl⟩, ⟨rfl, h.claims⟩⟩
  | claim c =>
    obtain ⟨claims, hc, rfl⟩ := map_eq_ok.mp hi
    exact ⟨_, map_eq_ok.mpr ⟨claims, by rw [← h.claims, hc], rfl⟩, ⟨h.files, rfl⟩⟩

/-- The same update has the same outcome. Nothing but the records decides whether it is accepted. -/
theorem update (h : desk.SameRecords other) {expected : UInt64}
    (hu : desk.update record expected = .ok desk') :
    ∃ other', other.update record expected = .ok other' ∧ desk'.SameRecords other' := by
  cases record with
  | file f =>
    obtain ⟨files, hf, rfl⟩ := map_eq_ok.mp hu
    exact ⟨_, map_eq_ok.mpr ⟨files, by rw [← h.files, hf], rfl⟩, ⟨rfl, h.claims⟩⟩
  | claim c =>
    obtain ⟨claims, hc, rfl⟩ := map_eq_ok.mp hu
    exact ⟨_, map_eq_ok.mpr ⟨claims, by rw [← h.claims, hc], rfl⟩, ⟨h.files, rfl⟩⟩

end Desk.SameRecords

/-- A step keeps the numbers of claims in order. Numbers that are drawn in vain are allowed for. -/
theorem Advance.numbered {config : EvaluationConfig Float} {v : Visit} {desk desk' : Desk}
    {own : List Event} {rest : Script Reply} {event : Option Event}
    (h : Advance config v desk own rest desk' event) (hn : desk.Numbered) : desk'.Numbered := by
  cases h with
  | missed _ _ => exact hn
  | wasted request _ e _ hi => exact (hn.wasted hi).2
  | openedFile a _ _ _ hi => exact hn.insert_file hi
  | openedClaim request _ _ _ _ hi => exact (hn.insert_claim hi).1
  | looked _ _ _ _ => exact hn
  | began _ _ _ _ => exact hn
  | told a r _ _ _ _ => exact hn.congr (Desk.Taken.congr (Desk.stored?_told _ _)) rfl
  | untold _ _ _ _ _ _ _ => exact hn
  | committed a _ _ _ _ hu => exact hn.update hu
  | overtaken _ _ _ _ _ => exact hn

namespace Floor

variable {config : EvaluationConfig Float} {floor : Floor} {t : Nat} {task : Task}
  {rest : Script Reply} {desk : Desk} {event : Option Event}

/-! ## The calls that committed -/

theorem mem_commits :
    t ∈ floor.commits ↔ ∃ record base, ⟨t, .wrote record base⟩ ∈ floor.trace := by
  simp only [commits, List.mem_filterMap]
  constructor
  · rintro ⟨⟨t', e⟩, hmem, he⟩
    cases e with
    | wrote record base =>
      cases he
      exact ⟨record, base, hmem⟩
    | _ => cases he
  · rintro ⟨record, base, hmem⟩
    exact ⟨_, hmem, rfl⟩

private theorem commits_after_wrote (v : Visit) (record : Stored) (base : Option UInt64) :
    (floor.after t v rest desk (some (.wrote record base))).commits = floor.commits ++ [t] := by
  simp [commits, after]

private theorem commits_after_quiet (v : Visit)
    (h : ∀ record base, event ≠ some (.wrote record base)) :
    (floor.after t v rest desk event).commits = floor.commits := by
  cases event with
  | none => simp [commits, after]
  | some e =>
    cases e with
    | wrote record base => exact absurd rfl (h record base)
    | _ => simp [commits, after]

private theorem visit?_after (ht : floor.tasks[t]? = some task) (t' : Nat) :
    (floor.after t task.visit rest desk event).visit? t' = floor.visit? t' := by
  by_cases hne : t' = t
  · subst hne
    rw [visit?, after_self ht, visit?, ht]
    rfl
  · rw [visit?, after_of_ne _ hne, visit?]

private theorem reply?_after_of_ne (v : Visit) {t' : Nat} (hne : t' ≠ t) :
    (floor.after t v rest desk event).reply? t' = floor.reply? t' := by
  rw [reply?, after_of_ne _ hne, reply?]

theorem reply?_after_self (ht : floor.tasks[t]? = some task) (v : Visit) (reply : Reply) :
    (floor.after t v (.done reply) desk event).reply? t = some reply := by
  rw [reply?, after_self ht]
  rfl

/-- A call that has not ended has not committed. Its commit would have been its last step. -/
theorem Sound.not_mem_commits (h : floor.Sound config) (ht : floor.tasks[t]? = some task)
    (hopen : task.reply? = none) : t ∉ floor.commits := by
  intro hmem
  obtain ⟨record, base, hw⟩ := mem_commits.mp hmem
  obtain ⟨reply, hrest⟩ := (h.progress ht).ended_of_wrote (mem_own.mpr hw)
  exact Task.reply?_eq_none.mp hopen reply hrest

theorem Sound.lt_of_mem_commits (h : floor.Sound config) (hmem : t ∈ floor.commits) :
    t < floor.tasks.length := by
  obtain ⟨record, base, hw⟩ := mem_commits.mp hmem
  exact h.tickets _ hw

/-! ## The session of the commits -/

/-- The session that serves the calls that committed. It knows nothing of the steps, nor of the
calls that failed. -/
abbrev serial (config : EvaluationConfig Float) (floor : Floor) : Session :=
  Session.run config floor.served

/-- The floor has the records and the replies of the session of its commits. The number of the next
claim may lag behind once no claim can be opened any more. -/
structure Serial (config : EvaluationConfig Float) (floor : Floor) : Prop where
  same : floor.desk.SameRecords (floor.serial config).desk
  replies : (floor.serial config).past.map (fun e => some e.reply) =
    floor.commits.map floor.reply?
  number : floor.desk.nextClaim = (floor.serial config).desk.nextClaim ∨ floor.desk.Exhausted

namespace Serial

theorem start (h : floor.Serial config) (hsound : floor.Sound config) (v : Visit) :
    (floor.start config v).Serial config := by
  have hserved : (floor.start config v).served = floor.served := by
    refine List.filterMap_congr fun t hmem => ?_
    rw [visit?, start_of_lt v (hsound.lt_of_mem_commits hmem), visit?]
  refine ⟨?_, ?_, ?_⟩
  · rw [serial, hserved]
    exact h.same
  · rw [serial, hserved, h.replies]
    refine List.map_congr_left fun t hmem => ?_
    rw [reply?, reply?, start_of_lt v (hsound.lt_of_mem_commits hmem)]
  · rw [serial, hserved]
    exact h.number

theorem served_after (ht : floor.tasks[t]? = some task) :
    (floor.after t task.visit rest desk event).served =
      (floor.after t task.visit rest desk event).commits.filterMap floor.visit? :=
  List.filterMap_congr fun t' _ => visit?_after ht t'

/-- A step that stores nothing. The session of the commits does not move. -/
theorem quiet (h : floor.Serial config) (hsound : floor.Sound config)
    (ht : floor.tasks[t]? = some task) (hopen : task.reply? = none)
    (hevent : ∀ record base, event ≠ some (.wrote record base))
    (hfiles : desk.files = floor.desk.files) (hclaims : desk.claims = floor.desk.claims)
    (hnumber : desk.nextClaim = floor.desk.nextClaim ∨ floor.desk.Exhausted) :
    (floor.after t task.visit rest desk event).Serial config := by
  have hcommits : (floor.after t task.visit rest desk event).commits = floor.commits :=
    commits_after_quiet _ hevent
  have hserved : (floor.after t task.visit rest desk event).served = floor.served := by
    rw [served_after ht, hcommits, served]
  refine ⟨?_, ?_, ?_⟩
  · rw [serial, hserved]
    exact ⟨hfiles.trans h.same.files, hclaims.trans h.same.claims⟩
  · rw [serial, hserved, hcommits, h.replies]
    refine List.map_congr_left fun t' hmem => (reply?_after_of_ne _ ?_).symm
    rintro rfl
    exact hsound.not_mem_commits ht hopen hmem
  · rw [serial, hserved]
    show desk.nextClaim = _ ∨ desk.Exhausted
    have hsame := Desk.stored?_congr hfiles hclaims
    obtain hnumber | hall := hnumber
    · rw [hnumber]
      exact h.number.imp_right fun hall => hall.congr hsame
    · exact .inr (hall.congr hsame)

/-- A step that stores a record, as serving the call at once does. The session serves one visit
more, with the same reply. -/
theorem wrote (h : floor.Serial config) (hsound : floor.Sound config)
    (ht : floor.tasks[t]? = some task) (hopen : task.reply? = none) {record : Stored}
    {base : Option UInt64} {reply : Reply} {other : Desk}
    (hserve : task.visit.serve config (floor.serial config).desk = (reply, other))
    (hsame : desk.SameRecords other)
    (hnumber : desk.nextClaim = other.nextClaim ∨ desk.Exhausted) :
    (floor.after t task.visit (.done reply) desk (some (.wrote record base))).Serial config := by
  have hcommits : (floor.after t task.visit (.done reply) desk
      (some (.wrote record base))).commits = floor.commits ++ [t] := commits_after_wrote _ _ _
  have hserved : (floor.after t task.visit (.done reply) desk
      (some (.wrote record base))).served = floor.served ++ [task.visit] := by
    have hvisit : floor.visit? t = some task.visit := by rw [visit?, ht]; rfl
    rw [served_after ht, hcommits, List.filterMap_append, served]
    simp [hvisit]
  have hserial : serial config (floor.after t task.visit (.done reply) desk
      (some (.wrote record base))) =
      ⟨other, (floor.serial config).past ++ [⟨task.visit, reply, other⟩]⟩ := by
    rw [serial, hserved, Session.run_append_one, Session.serve, hserve]
  refine ⟨?_, ?_, ?_⟩
  · rw [hserial]
    exact hsame
  · rw [hserial, hcommits, List.map_append, List.map_append, h.replies]
    refine congrArg₂ _ (List.map_congr_left fun t' hmem => ?_) ?_
    · refine (reply?_after_of_ne _ ?_).symm
      rintro rfl
      exact hsound.not_mem_commits ht hopen hmem
    · rw [List.map_singleton, List.map_singleton, reply?_after_self ht]
  · rw [hserial]
    exact hnumber

/-- Every step. Only the steps that store a record move the session. -/
theorem after (h : floor.Serial config) (hsound : floor.Sound config) (hnum : floor.desk.Numbered)
    (hfew : ∀ id, commitsOn id floor.trace ≤ UInt64.size) (ht : floor.tasks[t]? = some task)
    (hopen : task.reply? = none)
    (ha : Advance config task.visit floor.desk (floor.own t) rest desk event) :
    (floor.after t task.visit rest desk event).Serial config := by
  cases ha with
  | missed _ _ => exact h.quiet hsound ht hopen (by simp) rfl rfl (.inl rfl)
  | wasted request _ e _ hi =>
    exact h.quiet hsound ht hopen (by simp) rfl rfl (.inr (hnum.wasted hi).1)
  | openedFile a _ _ hcall hi =>
    obtain ⟨other, ho, hsame⟩ := h.same.insert hi
    refine h.wrote hsound ht hopen (serve_openedFile hcall ho) hsame ?_
    rw [Desk.nextClaim_of_insert hi, Desk.nextClaim_of_insert ho]
    exact h.number.imp_right fun hall => hall.of_store (Desk.stored?_of_insert hi)
  | openedClaim request _ _ hcall hb hi =>
    -- An insertion was accepted, so there are numbers left and the two counters agree.
    have hn := h.number.resolve_right (hnum.insert_claim hi).2
    have hdrawn : floor.desk.drawNumber.SameRecords (floor.serial config).desk.drawNumber :=
      ⟨h.same.files, h.same.claims⟩
    obtain ⟨other, ho, hsame⟩ := hdrawn.insert hi
    have hserve : task.visit.serve config (floor.serial config).desk =
        (.claim (.ok (.ofRequest (claimNumber floor.desk.nextClaim) request)), other) := by
      rw [hn] at ho ⊢
      exact serve_openedClaim hcall hb ho
    refine h.wrote hsound ht hopen hserve hsame (.inl ?_)
    rw [Desk.nextClaim_of_insert hi, Desk.nextClaim_of_insert ho, Desk.drawNumber, hn]
    rfl
  | looked _ _ _ _ => exact h.quiet hsound ht hopen (by simp) rfl rfl (.inl rfl)
  | began _ _ _ _ => exact h.quiet hsound ht hopen (by simp) rfl rfl (.inl rfl)
  | told _ _ _ _ _ _ => exact h.quiet hsound ht hopen (by simp) rfl rfl (.inl rfl)
  | untold _ _ _ _ _ _ _ => exact h.quiet hsound ht hopen (by simp) rfl rfl (.inl rfl)
  | committed a _ hown hcall hr hu =>
    -- The ledger says that the record has not changed since the call read it, so reading it now is
    -- the same.
    have hs := hsound.current hfew hown hcall hu
    have htold : floor.desk.SameRecords ((floor.serial config).desk.told a.referral.toList) :=
      ⟨h.same.files, h.same.claims⟩
    obtain ⟨other, ho, hsame⟩ := htold.update hu
    rw [← h.same.stored?] at hs
    refine h.wrote hsound ht hopen (serve_amended hcall.amends hcall.target hs hr ho) hsame ?_
    rw [Desk.nextClaim_of_update hu, Desk.nextClaim_of_update ho]
    exact h.number.imp_right fun hall => hall.of_store (Desk.stored?_of_update hu)
  | overtaken _ _ _ _ _ => exact h.quiet hsound ht hopen (by simp) rfl rfl (.inl rfl)

end Serial

/-- **Simulation.** That the numbers of claims are in order is carried along, since it needs no
bound. -/
theorem serial_of_few (moves : List Move)
    (hfew : ∀ id, commitsOn id (run config moves).trace ≤ UInt64.size) :
    (run config moves).Serial config := by
  have hboth : (run config moves).desk.Numbered ∧
      ((∀ id, commitsOn id (run config moves).trace ≤ UInt64.size) →
        (run config moves).Serial config) := by
    -- The bound is on the end of the run; each prefix of it is within the bound too.
    refine induction (P := fun floor => floor.desk.Numbered ∧
      ((∀ id, commitsOn id floor.trace ≤ UInt64.size) → floor.Serial config)) ?_ ?_ ?_ moves
    · exact ⟨.empty, fun _ => ⟨⟨rfl, rfl⟩, rfl, .inl rfl⟩⟩
    · exact fun floor v hsound ih => ⟨ih.1, fun hfew => (ih.2 hfew).start hsound v⟩
    · intro floor t task rest desk event hsound ih ht hopen ha
      refine ⟨ha.numbered ih.1, fun hfew => ?_⟩
      have hfew' := few_of_after hfew
      exact (ih.2 hfew').after hsound ih.1 hfew' ht hopen ha
  exact hboth.2 hfew

/-! ## One winner -/

theorem commits_nodup (moves : List Move) : (run config moves).commits.Nodup := by
  refine induction (P := fun floor => floor.commits.Nodup) ?_ ?_ ?_ moves
  · exact List.nodup_nil
  · exact fun _ _ _ ih => ih
  · intro floor t task rest desk event hsound ih ht hopen ha
    -- Only a call that had not ended can commit, and it has not committed before.
    by_cases hw : ∃ record base, event = some (.wrote record base)
    · obtain ⟨record, base, rfl⟩ := hw
      rw [commits_after_wrote]
      rw [← List.concat_eq_append]
      exact ih.concat (hsound.not_mem_commits ht hopen)
    · rw [commits_after_quiet _ fun record base heq => hw ⟨record, base, heq⟩]
      exact ih

/-- A call that read a record and committed has replaced that record. A call that opens a record
reads none. -/
theorem Sound.wrote_of_read (h : floor.Sound config) {record : Stored}
    (hread : .read record ∈ floor.own t) (hcommit : t ∈ floor.commits) :
    ∃ changed, changed.id = record.id ∧
      ⟨t, .wrote changed (some record.revision)⟩ ∈ floor.trace := by
  obtain ⟨changed, base, hw⟩ := mem_commits.mp hcommit
  have ht := List.getElem?_eq_getElem (h.lt_of_mem_commits hcommit)
  obtain ⟨hown, -⟩ | ⟨a, ha, hown, rfl, rfl⟩ := (h.progress ht).commit_cases (mem_own.mpr hw)
  · simp [hown] at hread
  · obtain rfl : record = a.source := by simpa [hown, Amendment.before] using hread
    exact ⟨a.changed, ha.amends.id_eq, hw⟩

/-- Of the calls that read a revision of a record, one at most commits. The revision that it
replaced is then gone for the others. -/
theorem Sound.one_winner (h : floor.Sound config)
    (hfew : ∀ id, commitsOn id floor.trace ≤ UInt64.size) {t t' : Nat} {record record' : Stored}
    (hread : .read record ∈ floor.own t) (hread' : .read record' ∈ floor.own t')
    (hid : record.id = record'.id) (hrev : record.revision = record'.revision)
    (hcommit : t ∈ floor.commits) (hcommit' : t' ∈ floor.commits) : t = t' := by
  obtain ⟨changed, hchanged, hw⟩ := h.wrote_of_read hread hcommit
  obtain ⟨changed', hchanged', hw'⟩ := h.wrote_of_read hread' hcommit'
  obtain ⟨pre, post, hsplit⟩ := List.append_of_mem hw
  obtain ⟨pre', post', hsplit'⟩ := List.append_of_mem hw'
  rw [← hrev] at hsplit'
  have hsame : changed.id = changed'.id := by rw [hchanged, hchanged', hid]
  exact (h.ledger.position_unique hsplit hsplit' hsame (hfew _)).2.1

/-- A call that finds its record replaced since it read it changes nothing and says so. It ends
there, and a caller who wants more has to start anew. -/
theorem Sound.stale (h : floor.Sound config) (hfew : ∀ id, commitsOn id floor.trace ≤ UInt64.size)
    (ht : floor.tasks[t]? = some task) {changed : Stored} {expected : UInt64}
    {next : (DeskOp.update changed expected).Answer → Script Reply}
    (hrest : task.rest = .step (.update changed expected) next) {pre post : List Happening}
    {record : Stored} (hread : floor.trace = pre ++ ⟨t, .read record⟩ :: post)
    (hpost : commitsOn record.id post ≠ 0) :
    floor.advance t = floor.after t task.visit (.done (task.visit.call.failed .stale)) floor.desk
      (some (.stale changed expected)) := by
  have hprogress := h.progress ht
  rw [hrest] at hprogress
  obtain ⟨a, ha, hown, rfl, rfl, hwrite⟩ := hprogress.writing_of_update
  have hmem : .read record ∈ floor.own t := mem_own.mpr (by rw [hread]; simp)
  obtain rfl : record = a.source := by simpa [hown, Amendment.before] using hmem
  obtain ⟨stored, hs⟩ := Option.isSome_iff_exists.mp
    (h.ledger.there_of_read (mem_own.mp hmem))
  -- At the revision that was read there would have been no commit since.
  have hmoved : stored.revision ≠ a.source.revision := fun hrev =>
    hpost (h.ledger.unchanged hread (hfew _) hs hrev).2
  have hstale : floor.desk.update a.changed a.source.revision = .error .stale :=
    Desk.update_of_moved (by rw [ha.amends.id_eq, hs]) hmoved
  exact advance_of_stale ht (hrest.trans hwrite) hstale

/-! ## The theorem -/

/-- The calls that committed could have been served one at a time, in the order of their commits.
The desk is compared shelf by shelf, so even the order of the records is the same. -/
structure Serializable (config : EvaluationConfig Float) (floor : Floor) : Prop where
  visits : floor.served.map some = floor.commits.map floor.visit?
  files : floor.desk.files = (floor.serial config).desk.files
  claims : floor.desk.claims = (floor.serial config).desk.claims
  replies : (floor.serial config).past.map (fun e => some e.reply) =
    floor.commits.map floor.reply?
  /-- No call commits twice. -/
  once : floor.commits.Nodup
  /-- Of the calls that read a revision of a record, one at most commits. -/
  oneWinner : ∀ t t' record record', ⟨t, .read record⟩ ∈ floor.trace →
    ⟨t', .read record'⟩ ∈ floor.trace → record.id = record'.id →
    record.revision = record'.revision → t ∈ floor.commits → t' ∈ floor.commits → t = t'
  /-- The write of a call whose record was replaced since it was read changes nothing. -/
  stale : ∀ t task changed expected next pre record post, floor.tasks[t]? = some task →
    task.rest = .step (.update changed expected) next →
    floor.trace = pre ++ ⟨t, .read record⟩ :: post → commitsOn record.id post ≠ 0 →
    (floor.advance t).desk = floor.desk ∧ (floor.advance t).commits = floor.commits ∧
      (floor.advance t).reply? t = some (task.visit.call.failed .stale)

private theorem Sound.map_served (h : floor.Sound config) :
    floor.served.map some = floor.commits.map floor.visit? := by
  have hall (t : Nat) (hmem : t ∈ floor.commits) : (floor.visit? t).isSome := by
    rw [visit?, List.getElem?_eq_getElem (h.lt_of_mem_commits hmem)]
    rfl
  rw [served, List.map_filterMap_some_eq_filter_map_isSome, List.filter_eq_self]
  intro v hmem
  obtain ⟨t, ht, rfl⟩ := List.mem_map.mp hmem
  exact hall t ht

/-- **No lost update.** Whatever the order of the steps of any number of calls, as long as no record
is stored more than `UInt64.size` times, the calls that committed are serializable. Beyond that many
the revision would come round, and a stale write could pass for a fresh one. -/
theorem no_lost_update (moves : List Move)
    (hfew : ∀ id, commitsOn id (run config moves).trace ≤ UInt64.size) :
    (run config moves).Serializable config where
  visits := (sound moves).map_served
  files := (serial_of_few moves hfew).same.files
  claims := (serial_of_few moves hfew).same.claims
  replies := (serial_of_few moves hfew).replies
  once := commits_nodup moves
  oneWinner t t' record record' hread hread' hid hrev hcommit hcommit' := by
    have hsound : (run config moves).Sound config := sound moves
    exact hsound.one_winner hfew (mem_own.mpr hread) (mem_own.mpr hread') hid hrev hcommit hcommit'
  stale t task changed expected next pre record post ht hrest hread hpost := by
    have hsound : (run config moves).Sound config := sound moves
    rw [hsound.stale hfew ht hrest hread hpost]
    exact ⟨rfl, commits_after_quiet _ (by simp), reply?_after_self ht _ _⟩

/-- A file of high risk is submitted. Two evaluations then read it, both refer it to the carrier,
and the one that writes last finds it changed. The carrier accepts whatever it is sent. -/
def race : List Move :=
  [.start ⟨.submit ⟨"pol-1", 85, none, [⟨"CLAIMS_HISTORY", 85, 1, none⟩], "ana", none⟩ ⟨0, 0⟩,
      .ok ()⟩,
   .advance 0,
   .start ⟨.evaluate "pol-1", .ok ()⟩, .start ⟨.evaluate "pol-1", .ok ()⟩,
   .advance 1, .advance 2, .advance 1, .advance 2, .advance 1, .advance 2]

theorem no_lost_update_of_race :
    (∀ id, commitsOn id (run .standard race).trace ≤ UInt64.size) ∧
      (run .standard race).commits = [0, 1] ∧ (run .standard race).Serializable .standard := by
  have hfew (id : RecordId) : commitsOn id (run .standard race).trace ≤ UInt64.size := by
    have hlength : (run .standard race).trace.length ≤ UInt64.size := by decide +kernel
    exact Nat.le_trans List.countP_le_length hlength
  exact ⟨hfew, by decide +kernel, no_lost_update race hfew⟩

end Floor

end PolicyDesk
