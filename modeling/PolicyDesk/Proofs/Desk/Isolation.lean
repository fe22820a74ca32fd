import PolicyDesk.Proofs.Desk.Finality
import PolicyDesk.Proofs.Desk.Sessions
import PolicyDesk.Proofs.Desk.Stages

/-!
# Files do not influence each other

- **Addressees** (`Call.addressee?`, `Script.About`): a call on a file is about one policy. Each of
  its steps reads or stores the file of that policy, or refers it.
- **Influence** (`DeskOp.About.same`, `Script.About.same`): a step about a policy, and so a whole
  call, does the same on all desks that have the same file of that policy.
- **Reach** (`Visit.stored_of_spares`, `Visit.concerns_of_asked`): a call leaves the other records
  as they are, and refers no other file.
- **Sessions** (`Session.Isolated`, `Session.isolation`): what a session has of a policy is what the
  session has that serves the calls about the policy alone. Calls about different policies can
  therefore be served in either order (`Exchanged`).
-/

namespace PolicyDesk

/-- The policy whose file a call is about. Calls about claims, lookups of claims and the queue have
none. -/
def Call.addressee? : Call → Option PolicyId
  | .evaluate policyId => some policyId
  | .decide policyId _ _ _ => some policyId
  | .getFile policyId => some policyId
  | c => c.policy?

namespace Call

variable {config : EvaluationConfig Float} {c : Call} {k : PolicyId}

theorem addressee_of_assessment {a : Assessment Float} (h : c.assessment? config = some a) :
    c.addressee? = some a.policyId := by
  have hpolicy := policyId_of_assessment h
  cases c with
  | submit input now => exact hpolicy
  | score request now => exact hpolicy
  | _ => cases h

private theorem addressee_of_target (ht : c.target? = some (.file k)) : c.addressee? = some k := by
  cases c <;> cases ht <;> rfl

/-- The call is not about the record. A call about a file is about no claim. -/
def Spares (c : Call) : RecordId → Prop
  | .file k => c.addressee? ≠ some k
  | .claim _ => c.addressee? ≠ none

theorem spares_of_ne {id : RecordId} (hc : c.addressee? = some k) (hid : id ≠ .file k) :
    c.Spares id := by
  cases id with
  | file k' => exact fun h => hid (congrArg RecordId.file (Option.some.inj (h.symm.trans hc)))
  | claim claimId => exact fun h => nomatch hc.symm.trans h

private theorem target_ne_of_spares {id : RecordId} (h : c.Spares id) : c.target? ≠ some id := by
  intro ht
  cases id with
  | file k => exact h (addressee_of_target ht)
  | claim claimId => exact h (by cases c <;> cases ht <;> rfl)

private theorem target_of_addressee {id : RecordId} (ht : c.target? = some id)
    (hc : c.addressee? = some k) : id = .file k := by
  cases c <;> cases ht <;> cases hc <;> rfl

end Call

/-! ## Steps about a policy -/

namespace DeskOp

/-- The step reads or stores the file of the policy, or refers it. The queue is about all files, and
a number is about claims. -/
def About (k : PolicyId) : DeskOp → Prop
  | insert record => record.id = .file k
  | update record _ => record.id = .file k
  | fetch id => id = .file k
  | refer r => r.policyId = k
  | pending _ => False
  | number => False

/-- Whatever a step does, records stay under their own ids. -/
theorem keyed_apply (op : DeskOp) (carrier : CarrierAnswer) {desk : Desk} (hk : desk.Keyed) :
    (op.apply carrier desk).2.Keyed := by
  cases op with
  | insert record =>
    cases hi : desk.insert record with
    | ok desk' => rw [apply_insert_ok hi]; exact hk.of_insert hi
    | error e => rw [apply_insert_error hi]; exact hk
  | update record expected =>
    cases hu : desk.update record expected with
    | ok desk' => rw [apply_update_ok hu]; exact hk.of_update hu
    | error e => rw [apply_update_error hu]; exact hk
  | fetch id => rw [apply_fetch]; exact hk
  | pending limit => exact hk
  | refer r =>
    cases carrier with
    | ok u => exact hk.told [r]
    | error e => exact hk
  | number => exact hk.drawNumber

/-- A step gives the same answer on two desks, and leaves the same file of the policy. -/
structure SameAt (op : DeskOp) (carrier : CarrierAnswer) (k : PolicyId) (desk other : Desk) :
    Prop where
  answer : (op.apply carrier other).1 = (op.apply carrier desk).1
  record :
    (op.apply carrier other).2.stored? (.file k) = (op.apply carrier desk).2.stored? (.file k)

variable {op : DeskOp} {carrier : CarrierAnswer} {k : PolicyId} {desk other : Desk}

private theorem insert_same {record : Stored} (hid : record.id = .file k)
    (hsame : other.stored? (.file k) = desk.stored? (.file k)) :
    (insert record).SameAt carrier k desk other := by
  cases hs : desk.stored? (.file k) with
  | none =>
    have hfree : desk.stored? record.id = none := hid ▸ hs
    have hother : other.stored? record.id = none := hid ▸ hsame.trans hs
    obtain ⟨desk', hd⟩ := Desk.insert_of_free hfree
    obtain ⟨other', ho⟩ := Desk.insert_of_free hother
    refine ⟨by rw [apply_insert_ok hd, apply_insert_ok ho], ?_⟩
    rw [apply_insert_ok hd, apply_insert_ok ho, Desk.stored?_of_insert hd,
      Desk.stored?_of_insert ho, if_pos hid.symm, if_pos hid.symm]
  | some stored =>
    have hd : desk.insert record = .error .conflict :=
      Desk.insert_of_taken (by rw [hid, hs]; rfl)
    have ho : other.insert record = .error .conflict :=
      Desk.insert_of_taken (by rw [hid, hsame, hs]; rfl)
    refine ⟨by rw [apply_insert_error hd, apply_insert_error ho], ?_⟩
    rw [apply_insert_error hd, apply_insert_error ho, hsame]

/-- A record is updated exactly where there is one of the expected revision. -/
private theorem update_same {record : Stored} {expected : UInt64} (hid : record.id = .file k)
    (hsame : other.stored? (.file k) = desk.stored? (.file k)) :
    (update record expected).SameAt carrier k desk other := by
  have hrefused {e : StoreError} (hd : desk.update record expected = .error e)
      (ho : other.update record expected = .error e) :
      (update record expected).SameAt carrier k desk other := by
    refine ⟨by rw [apply_update_error hd, apply_update_error ho], ?_⟩
    rw [apply_update_error hd, apply_update_error ho, hsame]
  cases hs : desk.stored? (.file k) with
  | none =>
    exact hrefused (Desk.update_of_missing (hid ▸ hs))
      (Desk.update_of_missing (hid ▸ hsame.trans hs))
  | some stored =>
    have hthere : desk.stored? record.id = some stored := hid ▸ hs
    have hother : other.stored? record.id = some stored := hid ▸ hsame.trans hs
    by_cases hr : stored.revision = expected
    · obtain ⟨desk', hd⟩ := Desk.update_of_current hthere hr
      obtain ⟨other', ho⟩ := Desk.update_of_current hother hr
      refine ⟨by rw [apply_update_ok hd, apply_update_ok ho], ?_⟩
      rw [apply_update_ok hd, apply_update_ok ho, Desk.stored?_of_update hd,
        Desk.stored?_of_update ho, if_pos hid.symm, if_pos hid.symm]
    · exact hrefused (Desk.update_of_moved hthere hr) (Desk.update_of_moved hother hr)

/-- A step about a policy sees no more of a desk than the file of the policy. -/
theorem About.same (h : op.About k) (hsame : other.stored? (.file k) = desk.stored? (.file k)) :
    op.SameAt carrier k desk other := by
  cases op with
  | insert record => exact insert_same h hsame
  | update record expected => exact update_same h hsame
  | fetch id =>
    obtain rfl : id = .file k := h
    exact ⟨by rw [apply_fetch, apply_fetch, hsame], by rw [apply_fetch, apply_fetch, hsame]⟩
  | refer r =>
    cases carrier with
    | ok u =>
      refine ⟨rfl, ?_⟩
      rw [apply_refer_ok, apply_refer_ok, Desk.stored?_told, Desk.stored?_told, hsame]
    | error e => exact ⟨rfl, hsame⟩
  | pending limit => exact h.elim
  | number => exact h.elim

end DeskOp

/-! ## Scripts about a policy -/

namespace Script

/-- Every step that the script comes to is about the policy. The answers that it may get are those
of some desk in order, so that what is fetched is about the policy too. -/
inductive About (k : PolicyId) : Script Reply → Prop
  | done (reply : Reply) : About k (.done reply)
  | step (op : DeskOp) (next : op.Answer → Script Reply) : op.About k →
    (∀ carrier desk, desk.Keyed → About k (next (op.apply carrier desk).1)) →
    About k (.step op next)

/-- A script does the same on two desks, as far as a policy goes. -/
structure SameAt (s : Script Reply) (carrier : CarrierAnswer) (k : PolicyId)
    (desk other : Desk) : Prop where
  reply : (s.play carrier other).1 = (s.play carrier desk).1
  record : (s.play carrier other).2.stored? (.file k) = (s.play carrier desk).2.stored? (.file k)
  asked : s.asked carrier other = s.asked carrier desk

variable {s : Script Reply} {carrier : CarrierAnswer} {k : PolicyId}

/-- A script about a policy sees no more of a desk than the file of the policy. -/
theorem About.same (h : s.About k) {desk other : Desk} (hk : desk.Keyed)
    (hsame : other.stored? (.file k) = desk.stored? (.file k)) : s.SameAt carrier k desk other := by
  induction h generalizing desk other with
  | done reply => exact ⟨rfl, hsame, rfl⟩
  | step op next hop _ ih =>
    have hstep : op.SameAt carrier k desk other := hop.same hsame
    have hrest := ih carrier desk hk (op.keyed_apply carrier hk) hstep.record
    constructor
    · rw [play_step, play_step, hstep.answer, hrest.reply]
    · rw [play_step, play_step, hstep.answer, hrest.record]
    · rw [asked, asked, hstep.answer, hrest.asked]

end Script

namespace Call

variable {config : EvaluationConfig Float} {c : Call} {k : PolicyId}

private theorem about_settle (reply : Reply) (result : Except StoreError Unit) :
    (c.settle reply result).About k := by
  cases result <;> exact .done _

theorem about_write {a : Amendment} (hid : a.changed.id = .file k) : (c.write a).About k :=
  .step _ _ hid fun _ _ _ => about_settle _ _

/-- A referral is of the file that is amended, and so is the write after it. -/
theorem about_carry {a : Amendment} (ha : Amends config c a)
    (ht : c.target? = some a.source.id) (hid : a.source.id = .file k) : (c.carry a).About k := by
  have hchanged : a.changed.id = .file k := ha.id_eq.trans hid
  unfold carry
  cases hr : a.referral with
  | none => exact about_write hchanged
  | some r =>
    refine .step _ _ ?_ fun carrier desk _ => ?_
    · obtain ⟨f, hf, -, hpolicy⟩ := ha.referred_of_referral ht hr
      rw [hf] at hchanged
      exact hpolicy.symm.trans (RecordId.file.inj hchanged)
    · cases carrier with
      | ok u => exact about_write hchanged
      | error e => exact .done _

theorem about_reading (ht : c.target? = some (.file k)) :
    (c.reading config (.file k)).About k := by
  refine .step _ _ rfl fun carrier desk hk => ?_
  rw [DeskOp.apply_fetch]
  cases hs : desk.stored? (.file k) with
  | none => exact .done _
  | some record =>
    have hid : record.id = .file k := hk _ _ hs
    simp only [proceed]
    cases hc : c.consider config record with
    | error reply => exact .done _
    | ok a =>
      obtain ⟨ha, rfl⟩ := consider_eq_ok.mp hc
      exact about_carry ha (ht.trans (congrArg some hid.symm)) hid

/-- A call on a file is about its policy from its first step to its last. -/
theorem about_script (hc : c.addressee? = some k) : (c.script config).About k := by
  have hshape := c.script_shape config
  generalize c.script config = s at hshape
  cases hshape with
  | refused reply _ => exact .done reply
  | listing limit hq => rw [hq] at hc; cases hc
  | opening a ha =>
    have hid : (Stored.file (.ofAssessment a)).id = .file k :=
      congrArg RecordId.file (Option.some.inj ((addressee_of_assessment ha).symm.trans hc))
    exact .step _ _ hid fun _ _ _ => about_settle _ _
  | numbering request ho _ => rw [ho] at hc; cases hc
  | reading id ht =>
    obtain rfl := target_of_addressee ht hc
    exact about_reading ht

end Call

/-! ## Visits -/

/-- The visit is about the file of the policy. -/
def Visit.concerns (k : PolicyId) (v : Visit) : Bool := v.call.addressee? == some k

namespace Visit

variable {config : EvaluationConfig Float} {v : Visit} {k : PolicyId} {desk other : Desk}

theorem concerns_iff : v.concerns k = true ↔ v.call.addressee? = some k := by
  simp [concerns]

/-- A visit about a policy does the same on two desks that have the same file of it. -/
theorem same (config : EvaluationConfig Float) (hv : v.concerns k = true) (hk : desk.Keyed)
    (hsame : other.stored? (.file k) = desk.stored? (.file k)) :
    (v.serve config other).1 = (v.serve config desk).1 ∧
      (v.serve config other).2.stored? (.file k) = (v.serve config desk).2.stored? (.file k) ∧
      v.asked config other = v.asked config desk := by
  have h : (v.call.script config).SameAt v.carrier k desk other :=
    (Call.about_script (concerns_iff.mp hv)).same hk hsame
  simp only [serve_eq_play, Visit.asked, Call.program_eq_script]
  exact ⟨h.reply, h.record, h.asked⟩

/-- A visit leaves every record as it is that it is not about. -/
theorem stored_of_spares {id : RecordId} (hv : v.call.Spares id) (hk : desk.Keyed) :
    (v.serve config desk).2.stored? id = desk.stored? id := by
  have he : Effect config v desk (v.serve config desk).1 (v.serve config desk).2 := serve_effect hk
  generalize (v.serve config desk).1 = reply, (v.serve config desk).2 = desk' at he ⊢
  cases he with
  | kept _ _ => rfl
  | wasted request e _ _ _ => exact Desk.stored?_drawNumber desk id
  | openedFile a _ ha hi =>
    have hne : id ≠ (Stored.file (.ofAssessment a)).id := by
      rintro rfl
      exact hv (Call.addressee_of_assessment ha)
    rw [Desk.stored?_of_insert hi, if_neg hne]
  | openedClaim request _ hc _ hi =>
    have hne : id ≠ (Stored.claim (.ofRequest (claimNumber desk.nextClaim) request)).id := by
      rintro rfl
      exact hv (by rw [hc]; rfl)
    rw [Desk.stored?_of_insert hi, if_neg hne, Desk.stored?_drawNumber]
  | amended a _ ha ht _ _ hu =>
    have hne : id ≠ a.changed.id := fun hid =>
      Call.target_ne_of_spares hv (by rw [ht, ← ha.id_eq, ← hid])
    rw [Desk.stored?_of_update hu, if_neg hne, Desk.stored?_told]

/-- A visit that is not about the policy spares its file. -/
theorem spares_of_apart (hv : v.concerns k = false) : v.call.Spares (.file k) :=
  fun hc => by simp [concerns_iff.mpr hc] at hv

/-- A visit refers no file but the one that it is about. -/
theorem concerns_of_asked (hk : desk.Keyed) {r : Referral} (hr : r ∈ v.asked config desk) :
    v.concerns r.policyId = true := by
  obtain hnone | ⟨a, r', ha, ht, -, hr', hone⟩ := asked_cases config v hk
  · simp [hnone] at hr
  · obtain rfl : r = r' := by simpa [hone] using hr
    obtain ⟨f, hf, -, hpolicy⟩ := ha.referred_of_referral ht hr'
    refine concerns_iff.mpr (Call.addressee_of_target ?_)
    rw [ht, ← ha.id_eq, hf, Stored.id_file, hpolicy]

end Visit

/-! ## Sessions -/

namespace Session

/-- The referrals that the visits send, whatever the carrier answers. Unlike the log of the desk,
this counts the referrals that the carrier refused. -/
def sent (config : EvaluationConfig Float) (visits : List Visit) : List Referral :=
  (visits.foldl (fun (p : Session × List Referral) v =>
    (p.1.serve config v, p.2 ++ v.asked config p.1.desk)) (empty, [])).2

variable {config : EvaluationConfig Float}

private theorem sent_append_one (visits : List Visit) (v : Visit) :
    sent config (visits ++ [v]) =
      sent config visits ++ v.asked config (run config visits).desk := by
  -- The fold carries the session along, so its first part is the session.
  have hrun : (visits.foldl (fun (p : Session × List Referral) v =>
      (p.1.serve config v, p.2 ++ v.asked config p.1.desk)) (empty, [])).1 = run config visits := by
    induction visits using List.reverseRecOn with
    | nil => rfl
    | append_singleton visits v ih => rw [List.foldl_append, run_append_one, ← ih]; rfl
  rw [sent, List.foldl_append, ← hrun]
  rfl

/-- The replies to the visits about a policy. The replies to all other visits are left out, those to
the queue too. -/
def repliesTo (k : PolicyId) (past : List Entry) : List Reply :=
  (past.filter (·.visit.concerns k)).map (·.reply)

private theorem repliesTo_append_one (k : PolicyId) (past : List Entry) (e : Entry) :
    repliesTo k (past ++ [e]) =
      repliesTo k past ++ if e.visit.concerns k = true then [e.reply] else [] := by
  by_cases he : e.visit.concerns k = true <;> simp [repliesTo, he]

/-- What a session has of a policy is what the session has that serves the visits about the policy
alone. -/
structure Isolated (config : EvaluationConfig Float) (visits : List Visit) (k : PolicyId) :
    Prop where
  replies : repliesTo k (run config visits).past =
    (run config (visits.filter (·.concerns k))).past.map (·.reply)
  record : (run config visits).desk.stored? (.file k) =
    (run config (visits.filter (·.concerns k))).desk.stored? (.file k)
  sent : (sent config visits).filter (·.policyId == k) =
    sent config (visits.filter (·.concerns k))
  /-- The referrals that the carrier has accepted. -/
  logged : (run config visits).desk.referrals.filter (·.policyId == k) =
    (run config (visits.filter (·.concerns k))).desk.referrals

namespace Isolated

variable {visits : List Visit} {k : PolicyId} {v : Visit}

/-- One more visit about the policy, in both sessions. -/
theorem concerned (h : Isolated config visits k) (hv : v.concerns k = true) :
    Isolated config (visits ++ [v]) k := by
  obtain ⟨hreply, hrecord, hasked⟩ := Visit.same config hv (keyed _) h.record
  have hsent : (v.asked config (run config visits).desk).filter (·.policyId == k) =
      v.asked config (run config visits).desk := by
    refine List.filter_eq_self.mpr fun r hr => ?_
    have hpolicy := Visit.concerns_iff.mp (Visit.concerns_of_asked (keyed visits) hr)
    simpa using hpolicy.symm.trans (Visit.concerns_iff.mp hv)
  have hboth : (visits ++ [v]).filter (·.concerns k) = visits.filter (·.concerns k) ++ [v] := by
    simp [hv]
  constructor
  · rw [hboth, run_append_one, run_append_one]
    simp [serve, repliesTo_append_one, h.replies, hv, hreply]
  · rw [hboth, run_append_one, run_append_one]
    exact hrecord
  · rw [hboth, sent_append_one, sent_append_one, List.filter_append, h.sent, hsent, hasked]
  · rw [hboth, run_append_one, run_append_one]
    simp only [serve, Visit.referrals_serve, List.filter_append, h.logged, hasked]
    cases v.carrier with
    | ok u => rw [CarrierAnswer.taken_ok, ← hasked, hsent]
    | error e => simp

/-- One more visit that is not about the policy, and that the other session does not serve. -/
theorem unconcerned (h : Isolated config visits k) (hv : v.concerns k = false) :
    Isolated config (visits ++ [v]) k := by
  have hsent : (v.asked config (run config visits).desk).filter (·.policyId == k) = [] := by
    refine List.filter_eq_nil_iff.mpr fun r hr hpolicy => ?_
    obtain rfl : r.policyId = k := by simpa using hpolicy
    simp [Visit.concerns_of_asked (keyed visits) hr] at hv
  have hone : (visits ++ [v]).filter (·.concerns k) = visits.filter (·.concerns k) := by
    simp [hv]
  constructor
  · rw [hone, run_append_one]
    simp [serve, repliesTo_append_one, h.replies, hv]
  · rw [hone, run_append_one]
    exact (Visit.stored_of_spares (Visit.spares_of_apart hv) (keyed visits)).trans h.record
  · rw [hone, sent_append_one, List.filter_append, h.sent, hsent, List.append_nil]
  · rw [hone, run_append_one]
    simp only [serve, Visit.referrals_serve, List.filter_append, h.logged]
    cases v.carrier with
    | ok u => rw [CarrierAnswer.taken_ok, hsent, List.append_nil]
    | error e => simp

end Isolated

theorem isolated (visits : List Visit) (k : PolicyId) : Isolated config visits k := by
  induction visits using List.reverseRecOn with
  | nil => exact ⟨rfl, rfl, rfl, rfl⟩
  | append_singleton visits v ih =>
    cases hv : v.concerns k with
    | true => exact ih.concerned hv
    | false => exact ih.unconcerned hv

end Session

/-! ## Exchanges -/

/-- Two visits do the same in either order, and leave the same records. What the visits ask of the
carrier is the same too. -/
structure Exchanged (config : EvaluationConfig Float) (v w : Visit) (desk : Desk) : Prop where
  reply : (v.serve config (w.serve config desk).2).1 = (v.serve config desk).1
  reply' : (w.serve config (v.serve config desk).2).1 = (w.serve config desk).1
  asked : v.asked config (w.serve config desk).2 = v.asked config desk
  asked' : w.asked config (v.serve config desk).2 = w.asked config desk
  record : ∀ id, (w.serve config (v.serve config desk).2).2.stored? id =
    (v.serve config (w.serve config desk).2).2.stored? id

/-- Visits about different policies can be exchanged. -/
theorem exchanged {config : EvaluationConfig Float} {v w : Visit} {desk : Desk} {p q : PolicyId}
    (hk : desk.Keyed) (hv : v.call.addressee? = some p) (hw : w.call.addressee? = some q)
    (hne : p ≠ q) : Exchanged config v w desk := by
  have hpq : RecordId.file p ≠ .file q := fun h => hne (RecordId.file.inj h)
  have hsparep := Call.spares_of_ne hw hpq
  have hspareq := Call.spares_of_ne hv hpq.symm
  have hkv : (v.serve config desk).2.Keyed := (serve_effect hk).keyed hk
  have hkw : (w.serve config desk).2.Keyed := (serve_effect hk).keyed hk
  obtain ⟨hreply, hrecord, hasked⟩ := Visit.same config (Visit.concerns_iff.mpr hv) hk
    (Visit.stored_of_spares hsparep hk)
  obtain ⟨hreply', hrecord', hasked'⟩ := Visit.same config (Visit.concerns_iff.mpr hw) hk
    (Visit.stored_of_spares hspareq hk)
  refine ⟨hreply, hreply', hasked, hasked', fun id => ?_⟩
  by_cases hp : id = .file p
  · rw [hp, hrecord, Visit.stored_of_spares hsparep hkv]
  have hv' := Call.spares_of_ne hv hp
  by_cases hq : id = .file q
  · rw [hq, hrecord', Visit.stored_of_spares hspareq hkw]
  have hw' := Call.spares_of_ne hw hq
  calc (w.serve config (v.serve config desk).2).2.stored? id
      = (v.serve config desk).2.stored? id := Visit.stored_of_spares hw' hkv
    _ = desk.stored? id := Visit.stored_of_spares hv' hk
    _ = (w.serve config desk).2.stored? id := (Visit.stored_of_spares hw' hk).symm
    _ = (v.serve config (w.serve config desk).2).2.stored? id :=
      (Visit.stored_of_spares hv' hkw).symm

namespace Session

variable {config : EvaluationConfig Float}

/-- **Isolation.** The callers of a policy, its file and the carrier see of a session what they see
of the session that serves the calls about the policy alone, and calls about different policies can
be served in either order. -/
theorem isolation (visits : List Visit) :
    (∀ k, Isolated config visits k) ∧
      ∀ v w p q, v.call.addressee? = some p → w.call.addressee? = some q → p ≠ q →
        Exchanged config v w (run config visits).desk :=
  ⟨isolated visits, fun _ _ _ _ hv hw hne => exchanged (keyed visits) hv hw hne⟩

/-- A decision on one policy and the submission of another. -/
theorem isolation_of_submission :
    let visits : List Visit :=
      [⟨.submit ⟨" pol-1 ", 85, none, [⟨"CLAIMS_HISTORY", 85, 1, none⟩], "ana", none⟩ ⟨0, 0⟩,
        .ok ()⟩]
    let v : Visit := ⟨.decide "pol-1" ⟨"IN_REVIEW", none, none⟩ "ana" ⟨60, 0⟩, .ok ()⟩
    let w : Visit :=
      ⟨.submit ⟨"pol-2\t", 20, none, [⟨"CLAIMS_HISTORY", 20, 1, none⟩], "ben", none⟩ ⟨60, 0⟩,
        .ok ()⟩
    (v.serve .standard (run .standard visits).desk).1.isOk = true ∧
      (w.serve .standard (run .standard visits).desk).1.isOk = true ∧
      Exchanged .standard v w (run .standard visits).desk := by
  intro visits v w
  refine ⟨by decide +kernel, by decide +kernel, ?_⟩
  exact (isolation visits).2 v w "pol-1" "pol-2" rfl (by decide +kernel) (by decide)

end Session

end PolicyDesk
