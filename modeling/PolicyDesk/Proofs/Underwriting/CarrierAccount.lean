import PolicyDesk.Proofs.Desk.Sessions
import PolicyDesk.Proofs.Desk.Stages
import PolicyDesk.Proofs.Underwriting.Decisions
import PolicyDesk.Proofs.Underwriting.FileAccount

/-!
# The account of the carrier

When calls are served one after the other, the carrier's log and the statuses of the files tell the
same story (`Session.carrier_account`).

- **Log** (`Session.count_referrals`): the log has as many entries of a policy as its file has held
  REFERRED_TO_CARRIER, which is once at most (`count_referred_le_one`).
- **Entries** (`Refers`): each entry was sent by the visit that moved the file, and says what the
  file was assessed at and why it was moved.
- **Refusals** (`Contact`): a referral that the carrier refuses leaves everything as it was, and the
  call can be made again with the effect that it would have had.
-/

namespace PolicyDesk

open WorkflowStatus (allowedNext)

/-- The status of the file of a policy. -/
def Desk.fileStatus? (desk : Desk) (k : PolicyId) : Option UnderwritingStatus :=
  (desk.files.find? k).map (·.status)

/-- The reasons that a call gives for a referral: those of the evaluation, or the notes and the
conditions of the decision, trimmed. -/
inductive ReferralReasons (k : PolicyId) : Call → Reply → List String → Prop
  | evaluation (outcome : EvaluationOutcome Float) :
    ReferralReasons k (.evaluate k) (.outcome (.ok outcome)) outcome.reasons
  | decision (p : ProposedDecision) (decidedBy : String) (now : Instant) (f : UnderwritingFile) :
    ReferralReasons k (.decide k p decidedBy now) (.file (.ok f))
      ((Decision.keepNotes p.notes).toList ++ (p.conditions.getD []).map Text.trim)

/-- The referral gives the score and the severity of the assessment. A referral carries no more of
the assessment than these. -/
def Referral.Describes (r : Referral) (a : Assessment Float) : Prop :=
  r.policyId = a.policyId ∧ r.riskScore = a.riskScore.value ∧ r.severity = a.severity

/-- A visit moves a file to the carrier, with a referral. The carrier accepts it, and it is the one
entry that the log gains. -/
structure Refers (v : Visit) (desk : Desk) (reply : Reply) (after : Desk) (r : Referral) :
    Prop where
  accepted : v.carrier = .ok ()
  source : desk.fileStatus? r.policyId ≠ some .referredToCarrier
  target : after.fileStatus? r.policyId = some .referredToCarrier
  describes : ∃ f, after.files.find? r.policyId = some f ∧ r.Describes f.assessment
  reasons : ReferralReasons r.policyId v.call reply r.reasons
  logged : after.referrals = desk.referrals ++ [r]

/-- A call does the same on two desks: it gives the same reply, stores the same record and sends the
same referrals. The log of the carrier and the other records may have changed in between. -/
structure SameEffect (config : EvaluationConfig Float) (v : Visit) (desk later : Desk) : Prop where
  reply : (v.serve config later).1 = (v.serve config desk).1
  record : ∀ id, v.call.target? = some id →
    (v.serve config later).2.stored? id = (v.serve config desk).2.stored? id
  asked : v.asked config later = v.asked config desk

/-- What a visit has to do with the carrier. -/
structure Contact (config : EvaluationConfig Float) (v : Visit) (desk : Desk) : Prop where
  /-- The log grows by the referrals sent, if the carrier accepts. -/
  heard : (v.serve config desk).2.referrals =
    desk.referrals ++ v.carrier.taken (v.asked config desk)
  /-- A file is moved to the carrier with a referral. -/
  moved : ∀ k, desk.fileStatus? k ≠ some .referredToCarrier →
    (v.serve config desk).2.fileStatus? k = some .referredToCarrier →
    ∃ r, r.policyId = k ∧ v.asked config desk = [r] ∧
      Refers v desk (v.serve config desk).1 (v.serve config desk).2 r
  /-- A referral that the carrier accepts comes with the move of its file. -/
  refers : v.carrier = .ok () → ∀ r ∈ v.asked config desk,
    Refers v desk (v.serve config desk).1 (v.serve config desk).2 r
  /-- A call that the validator, a final file or the gate refuses sends no referral. -/
  silent : (v.serve config desk).1.isRefusal = true → v.asked config desk = []
  /-- A referral that the carrier refuses is all that happens. -/
  refused : ∀ e, v.carrier = .error e → v.asked config desk ≠ [] →
    v.serve config desk = (v.call.unreferred e, desk)
  /-- The same call with a carrier that accepts, while its file is unchanged. -/
  retried : ∀ later, v.asked config desk ≠ [] →
    (∀ id, v.call.target? = some id → later.stored? id = desk.stored? id) →
    SameEffect config ⟨v.call, .ok ()⟩ desk later ∧
      (Visit.serve config ⟨v.call, .ok ()⟩ later).1.isOk = true ∧
      (Visit.serve config ⟨v.call, .ok ()⟩ later).2.referrals =
        later.referrals ++ v.asked config desk

/-- The carrier's log and the statuses of the files agree. -/
structure CarrierAccount (config : EvaluationConfig Float) (visits : List Visit) : Prop where
  /-- The log has an entry of a policy exactly when its file was with the carrier at some time. -/
  referred : ∀ k, .referredToCarrier ∈ Session.held k (Session.run config visits).past ↔
    ∃ r ∈ (Session.run config visits).desk.referrals, r.policyId = k
  once : ((Session.run config visits).desk.referrals.map (·.policyId)).Nodup
  described : ∀ r ∈ (Session.run config visits).desk.referrals,
    ∃ f, (Session.run config visits).desk.files.find? r.policyId = some f ∧ r.Describes f.assessment
  /-- Every entry is of a visit that moved the file. -/
  explained : ∀ r ∈ (Session.run config visits).desk.referrals,
    ∃ before v later, visits = before ++ v :: later ∧
      let desk := (Session.run config before).desk
      Refers v desk (v.serve config desk).1 (v.serve config desk).2 r
  contact : ∀ v, Contact config v (Session.run config visits).desk

/-! ## One visit -/

section

variable {config : EvaluationConfig Float} {v : Visit} {desk : Desk}

/-- What an amendment with a referral is. It moves a file that was not with the carrier, and the
referral says of it what its assessment says. -/
theorem Amends.referring {c : Call} {a : Amendment} {r : Referral} (h : Amends config c a)
    (ht : c.target? = some a.source.id) (hr : a.referral = some r) :
    ∃ f₀ f, a.source = .file f₀ ∧ a.changed = .file f ∧ f₀.policyId = r.policyId ∧
      f.assessment = f₀.assessment ∧ f₀.status ≠ .referredToCarrier ∧
      f.status = .referredToCarrier ∧ r.Describes f.assessment ∧
      ReferralReasons r.policyId c a.reply r.reasons := by
  cases h with
  | evaluation policyId f ho hm =>
    obtain ⟨hs, rfl⟩ := UnderwritingFile.evaluationReferral_eq_some.mp hr
    obtain rfl : policyId = f.policyId := by simpa [Call.target?, Amendment.evaluation] using ht
    refine ⟨f, _, rfl, rfl, rfl, rfl, ?_, hs, ⟨rfl, rfl, rfl⟩, .evaluation _⟩
    intro heq
    rw [hs, heq] at hm
    exact UnderwritingStatus.not_mem_allowedNext_self _ hm
  | decision policyId p decidedBy now f d hp ho hm =>
    obtain ⟨hs, rfl⟩ := UnderwritingFile.decisionReferral_eq_some.mp hr
    obtain rfl : policyId = f.policyId := by simpa [Call.target?, Amendment.decision] using ht
    obtain ⟨status, -, -, rfl⟩ := Decision.ofProposal_eq_ok.mp hp
    refine ⟨f, _, rfl, rfl, rfl, rfl, ?_, hs, ⟨rfl, rfl, rfl⟩, .decision p decidedBy now _⟩
    intro heq
    rw [hs, heq] at hm
    exact UnderwritingStatus.not_mem_allowedNext_self _ hm
  | move _ _ _ _ _ => cases hr

/-- A referral that the carrier accepts comes with the move of its file. -/
theorem refers_of_asked (hk : desk.Keyed) (hc : v.carrier = .ok ()) {r : Referral}
    (hasked : r ∈ v.asked config desk) :
    Refers v desk (v.serve config desk).1 (v.serve config desk).2 r := by
  obtain hnone | ⟨a, r', ha, ht, hs, hr, hone⟩ := asked_cases config v hk
  · simp [hnone] at hasked
  · obtain rfl : r = r' := by simpa [hone] using hasked
    obtain ⟨f₀, f, hsource, hchanged, hid, hsame, hbefore, hafter, hdescribes, hreasons⟩ :=
      ha.referring ht hr
    obtain ⟨desk', hu, hserve⟩ := serve_accepted ha ht hs fun _ => hc
    -- The carrier accepts, so the write goes through and the file of the policy is the one that was
    -- referred.
    have hfiles := Desk.find?_of_update_file (hchanged ▸ hu) r.policyId
    rw [if_pos (show r.policyId = f.policyId from hdescribes.1)] at hfiles
    have hfile : desk.files.find? r.policyId = some f₀ := by
      rw [hsource, Stored.id_file, hid] at hs
      exact Desk.stored?_file_eq_some.mp hs
    have hlog := Desk.referrals_of_update hu
    rw [hserve]
    exact
      { accepted := hc
        source := by simp [Desk.fileStatus?, hfile, hbefore]
        target := by simp [Desk.fileStatus?, hfiles, hafter]
        describes := ⟨f, hfiles, hdescribes⟩
        reasons := hreasons
        logged := by simp [hlog, Desk.told, hr] }

/-- A file is moved to the carrier by a visit that asks the carrier to accept it. Only a commit of
the file itself moves it there, as a file is opened at PENDING_REVIEW. -/
private theorem asked_of_moved (hk : desk.Keyed) {k : PolicyId}
    (hbefore : desk.fileStatus? k ≠ some .referredToCarrier)
    (hafter : (v.serve config desk).2.fileStatus? k = some .referredToCarrier) :
    v.carrier = .ok () ∧ ∃ r, r.policyId = k ∧ v.asked config desk = [r] := by
  have heffect : Effect config v desk _ _ := serve_effect hk
  generalize (v.serve config desk).1 = reply, (v.serve config desk).2 = desk' at heffect hafter
  cases heffect with
  | kept _ _ => exact absurd hafter hbefore
  | wasted _ _ _ _ _ => exact absurd hafter hbefore
  | openedFile a _ ha hi =>
    rw [Desk.fileStatus?, Desk.find?_of_insert_file hi] at hafter
    split at hafter
    · cases hafter
    · exact absurd hafter hbefore
  | openedClaim request _ hc hb hi =>
    rw [Desk.fileStatus?, Desk.files_of_insert_claim hi] at hafter
    exact absurd hafter hbefore
  | amended a _ ha ht hs hr hu =>
    cases hc : a.changed with
    | claim cl =>
      rw [hc] at hu
      rw [Desk.fileStatus?, Desk.files_of_update_claim hu] at hafter
      exact absurd hafter hbefore
    | file f =>
      rw [hc] at hu
      rw [Desk.fileStatus?, Desk.find?_of_update_file hu] at hafter
      split at hafter
      · rename_i hid
        obtain ⟨r, hreferral, hpolicy⟩ := ha.referral_of_referred ht hc (Option.some.inj hafter)
        refine ⟨hr (by simp [hreferral]), r, hpolicy.trans hid.symm, ?_⟩
        rw [asked_of_amends ha ht hs, hreferral]
        rfl
      · exact absurd hafter hbefore

/-- A call that refers a file can be made on any desk that has the file as it was. The rest of the
desk may have changed: the call reads its own file only. -/
private theorem retried_of_asked (hk : desk.Keyed) {later : Desk}
    (hasked : v.asked config desk ≠ [])
    (hsame : ∀ id, v.call.target? = some id → later.stored? id = desk.stored? id) :
    SameEffect config ⟨v.call, .ok ()⟩ desk later ∧
      (Visit.serve config ⟨v.call, .ok ()⟩ later).1.isOk = true ∧
      (Visit.serve config ⟨v.call, .ok ()⟩ later).2.referrals =
        later.referrals ++ v.asked config desk := by
  obtain hnone | ⟨a, r, ha, ht, hs, hr, hone⟩ := asked_cases config v hk
  · exact absurd hnone hasked
  · have hs' : later.stored? a.source.id = some a.source := (hsame _ ht).trans hs
    obtain ⟨desk', hu, hserve⟩ :=
      serve_accepted (v := ⟨v.call, .ok ()⟩) ha ht hs fun _ => rfl
    obtain ⟨later', hu', hserve'⟩ :=
      serve_accepted (v := ⟨v.call, .ok ()⟩) ha ht hs' fun _ => rfl
    have hlog := Desk.referrals_of_update hu'
    rw [hone]
    refine ⟨⟨by rw [hserve, hserve'], fun id hid => ?_, ?_⟩, ?_, ?_⟩
    · obtain rfl : a.source.id = id := Option.some.inj (ht.symm.trans hid)
      rw [hserve, hserve', Desk.stored?_of_update hu, Desk.stored?_of_update hu', ha.id_eq,
        if_pos rfl, if_pos rfl]
    · rw [asked_of_amends (v := ⟨v.call, .ok ()⟩) ha ht hs,
        asked_of_amends (v := ⟨v.call, .ok ()⟩) ha ht hs']
    · rw [hserve']
      exact Call.isOk_of_amends ha
    · rw [hserve']
      simp [hlog, Desk.told, hr]

/-- What the carrier hears of a visit, and what a refusal of it does, on any desk in order. -/
theorem contact (hk : desk.Keyed) : Contact config v desk where
  heard := v.referrals_serve config desk
  moved k hbefore hafter := by
    obtain ⟨hc, r, hr, hasked⟩ := asked_of_moved hk hbefore hafter
    exact ⟨r, hr, hasked, refers_of_asked hk hc (by simp [hasked])⟩
  refers hc r hasked := refers_of_asked hk hc hasked
  silent := asked_of_refused hk
  refused e he hasked := by
    obtain hnone | ⟨a, r, ha, ht, hs, hr, -⟩ := asked_cases config v hk
    · exact absurd hnone hasked
    · exact serve_refused ha ht hs hr he
  retried later hasked hsame := retried_of_asked hk hasked hsame

end

/-- What is made of a file has the assessment of the file. -/
theorem Amends.assessment_kept {config : EvaluationConfig Float} {c : Call} {a : Amendment}
    {f : UnderwritingFile} (h : Amends config c a) (hs : a.source = .file f) :
    ∃ f', a.changed = .file f' ∧ f'.assessment = f.assessment := by
  cases h with
  | evaluation _ f₀ _ _ =>
    cases hs
    exact ⟨_, rfl, rfl⟩
  | decision _ _ _ _ f₀ _ _ _ _ =>
    cases hs
    exact ⟨_, rfl, rfl⟩
  | move _ _ _ _ _ => cases hs

/-- A referral describes the file of its policy from then on. -/
theorem Effect.describes {config : EvaluationConfig Float} {v : Visit} {desk desk' : Desk}
    {reply : Reply} {k : PolicyId} {r : Referral} (he : Effect config v desk reply desk')
    (h : ∃ f, desk.files.find? k = some f ∧ r.Describes f.assessment) :
    ∃ f, desk'.files.find? k = some f ∧ r.Describes f.assessment := by
  obtain ⟨f, hf, hdescribes⟩ := h
  obtain ⟨g, hg, hsame⟩ := he.file_kept hf
  exact ⟨g, hg, hsame ▸ hdescribes⟩

/-! ## A whole session -/

/-- Statuses that follow each other, after one that a file has only after its referral. The statuses
past a referral lead to each other only, and none of them is REFERRED_TO_CARRIER again. -/
private theorem not_mem_referred_of_past {s : UnderwritingStatus} {held : List UnderwritingStatus}
    (hs : s.pastReferral = true) (h : (s :: held).IsChain fun s t => t ∈ allowedNext s) :
    .referredToCarrier ∉ held := by
  induction held generalizing s with
  | nil => simp
  | cons t rest ih =>
    obtain ⟨hmove, hrest⟩ := List.isChain_cons_cons.mp h
    obtain ⟨ht, hne⟩ := UnderwritingStatus.pastReferral_of_move hs hmove
    exact List.not_mem_cons_of_ne_of_not_mem hne.symm (ih ht hrest)

/-- A file goes to the carrier once at most. -/
private theorem count_referred_le_one {held : List UnderwritingStatus}
    (h : held.IsChain fun s t => t ∈ allowedNext s) : held.count .referredToCarrier ≤ 1 := by
  induction held with
  | nil => exact Nat.zero_le 1
  | cons s rest ih =>
    -- After the first time the rest of the list is past the referral.
    by_cases hs : s = .referredToCarrier
    · subst hs
      rw [List.count_cons_self, List.count_eq_zero.mpr (not_mem_referred_of_past rfl h)]
    · rw [List.count_cons_of_ne hs]
      exact ih h.tail

/-- The referrals that an amendment sends for a policy. There is one exactly if the file of the
policy is moved to the carrier. -/
theorem Amends.count_referral {config : EvaluationConfig Float} {c : Call} {a : Amendment}
    (h : Amends config c a) (ht : c.target? = some a.source.id) {f : UnderwritingFile}
    (hc : a.changed = .file f) (k : PolicyId) :
    (a.referral.toList.map (·.policyId)).count k =
      if f.policyId = k ∧ f.status = .referredToCarrier then 1 else 0 := by
  cases hr : a.referral with
  | none =>
    rw [if_neg]
    · rfl
    · rintro ⟨-, hs⟩
      obtain ⟨r, hr', -⟩ := h.referral_of_referred ht hc hs
      rw [hr] at hr'
      cases hr'
  | some r =>
    obtain ⟨g, hc', hs, hid⟩ := h.referred_of_referral ht hr
    rw [hc] at hc'
    cases hc'
    simp [hs, hid, List.count_singleton]

namespace Session

variable {config : EvaluationConfig Float}

/-- For every time that the file of the policy was with the carrier the log has an entry. -/
def InStep (k : PolicyId) (past : List Entry) (desk : Desk) : Prop :=
  (desk.referrals.map (·.policyId)).count k = (held k past).count .referredToCarrier

section

variable {past : List Entry} {desk desk' : Desk} {v : Visit} {reply : Reply} {k : PolicyId}

private theorem inStep_of_unmoved (hacc : Accounted config past k (desk.files.find? k))
    (h : InStep k past desk) (hfile : desk'.files.find? k = desk.files.find? k)
    (hlog : desk'.referrals = desk.referrals) : InStep k (past ++ [⟨v, reply, desk'⟩]) desk' := by
  rw [InStep, hacc.held_unmoved hfile, hlog, h]

private theorem inStep_of_opened (hacc : Accounted config past k (desk.files.find? k))
    (h : InStep k past desk) {a : Assessment Float}
    (hi : desk.insert (.file (.ofAssessment a)) = .ok desk') :
    InStep k (past ++ [⟨v, reply, desk'⟩]) desk' := by
  have hfiles := Desk.find?_of_insert_file hi k
  rw [UnderwritingFile.policyId_ofAssessment] at hfiles
  by_cases hk : k = a.policyId
  · subst hk
    rw [if_pos rfl] at hfiles
    have hfree : desk.files.find? a.policyId = none := by
      simpa [Desk.stored?] using Desk.free_of_insert hi
    rw [hfree] at hacc
    have hnone : held a.policyId past = [] := hacc.noStatus
    rw [InStep, Desk.referrals_of_insert hi, h, held_append_one, hnone]
    simp [Entry.status?, hfiles, noteStatus, UnderwritingFile.ofAssessment]
  · exact inStep_of_unmoved hacc h (hfiles.trans (if_neg hk)) (Desk.referrals_of_insert hi)

/-- A file that is amended is referred exactly if the amendment moves it to the carrier. -/
private theorem inStep_of_amended (hacc : Accounted config past k (desk.files.find? k))
    (h : InStep k past desk) {a : Amendment} (ha : Amends config v.call a)
    (ht : v.call.target? = some a.source.id) (hs : desk.stored? a.source.id = some a.source)
    {f : UnderwritingFile} (hc : a.changed = .file f)
    (hu : (desk.told a.referral.toList).update a.changed a.source.revision = .ok desk') :
    InStep k (past ++ [⟨v, reply, desk'⟩]) desk' := by
  have hlog : desk'.referrals = desk.referrals ++ a.referral.toList := Desk.referrals_of_update hu
  obtain ⟨f₀, hsource, hid, hmove⟩ := ha.file_of_changed hc
  have hfiles := Desk.find?_of_update_file (hc ▸ hu) k
  rw [InStep, hlog, List.map_append, List.count_append, h, ha.count_referral ht hc]
  by_cases hk : k = f.policyId
  · subst hk
    rw [if_pos rfl] at hfiles
    rw [hsource, Stored.id_file, hid] at hs
    rw [Desk.stored?_file_eq_some.mp hs] at hacc
    have hstatus : Entry.status? f.policyId ⟨v, reply, desk'⟩ = some f.status := by
      simp [Entry.status?, hfiles]
    rw [FileAccount.held_append hacc hmove hstatus, List.count_append, List.count_singleton]
    simp
  · rw [hacc.held_unmoved (hfiles.trans (if_neg hk)), if_neg fun hf => hk hf.1.symm,
      Nat.add_zero]

/-- One visit adds as many entries of a policy to the log as statuses with the carrier. -/
theorem inStep_append_one (hacc : Accounted config past k (desk.files.find? k))
    (h : InStep k past desk) (he : Effect config v desk reply desk') :
    InStep k (past ++ [⟨v, reply, desk'⟩]) desk' := by
  cases he with
  | kept _ _ => exact inStep_of_unmoved hacc h rfl rfl
  | wasted _ _ _ _ _ => exact inStep_of_unmoved hacc h rfl rfl
  | openedClaim request _ _ _ hi =>
    have hlog := Desk.referrals_of_insert hi
    exact inStep_of_unmoved hacc h (by rw [Desk.files_of_insert_claim hi]; rfl) hlog
  | openedFile a _ ha hi => exact inStep_of_opened hacc h hi
  | amended a _ ha ht hs hr hu =>
    cases hc : a.changed with
    | file f => exact inStep_of_amended hacc h ha ht hs hc hu
    | claim cl =>
      have hnone : a.referral = none := by
        by_contra hsome
        obtain ⟨r, hreferral⟩ := Option.ne_none_iff_exists'.mp hsome
        obtain ⟨f, hf, -, -⟩ := ha.referred_of_referral ht hreferral
        rw [hc] at hf
        cases hf
      have hlog : desk'.referrals = desk.referrals ++ a.referral.toList :=
        Desk.referrals_of_update hu
      rw [hc] at hu
      exact inStep_of_unmoved hacc h (Desk.files_of_update_claim hu ▸ rfl) (by simp [hlog, hnone])

end

/-- Both sides grow together, visit by visit. -/
theorem count_referrals (visits : List Visit) (k : PolicyId) :
    ((run config visits).desk.referrals.map (·.policyId)).count k =
      (held k (run config visits).past).count .referredToCarrier := by
  induction visits using List.reverseRecOn with
  | nil => rfl
  | append_singleton visits v ih =>
    rw [run_append_one]
    exact inStep_append_one (accounted visits k) ih (serve_effect (keyed visits))

private theorem isChain_held (visits : List Visit) (k : PolicyId) :
    (held k (run config visits).past).IsChain fun s t => t ∈ allowedNext s := by
  have hacc : Accounted config _ k _ := accounted visits k
  cases hf : (run config visits).desk.files.find? k with
  | none =>
    rw [hf] at hacc
    rw [hacc.noStatus]
    exact .nil
  | some f =>
    rw [hf] at hacc
    exact FileAccount.moves hacc

/-- An entry of the log after one more visit is an earlier one, or of this visit. -/
theorem logged_cases {visits : List Visit} {v : Visit} {r : Referral}
    (hr : r ∈ (run config (visits ++ [v])).desk.referrals) :
    r ∈ (run config visits).desk.referrals ∨
      Refers v (run config visits).desk (v.serve config (run config visits).desk).1
        (v.serve config (run config visits).desk).2 r := by
  rw [run_append_one, serve, v.referrals_serve, List.mem_append] at hr
  obtain hold | hnew := hr
  · exact .inl hold
  · cases hc : v.carrier with
    | ok u =>
      rw [hc] at hnew
      exact .inr (refers_of_asked (keyed visits) hc hnew)
    | error e =>
      rw [hc] at hnew
      cases hnew

theorem explained (visits : List Visit) {r : Referral}
    (hr : r ∈ (run config visits).desk.referrals) :
    ∃ before v later, visits = before ++ v :: later ∧
      Refers v (run config before).desk (v.serve config (run config before).desk).1
        (v.serve config (run config before).desk).2 r := by
  induction visits using List.reverseRecOn with
  | nil => cases hr
  | append_singleton visits v ih =>
    obtain hold | hnew := logged_cases hr
    · obtain ⟨before, v', later, rfl, hrefers⟩ := ih hold
      exact ⟨before, v', later ++ [v], by simp, hrefers⟩
    · exact ⟨visits, v, [], rfl, hnew⟩

theorem described (visits : List Visit) {r : Referral}
    (hr : r ∈ (run config visits).desk.referrals) :
    ∃ f, (run config visits).desk.files.find? r.policyId = some f ∧ r.Describes f.assessment := by
  induction visits using List.reverseRecOn with
  | nil => cases hr
  | append_singleton visits v ih =>
    obtain hold | hnew := logged_cases hr
    · rw [run_append_one]
      exact (serve_effect (keyed visits)).describes (ih hold)
    · rw [run_append_one]
      exact hnew.describes

/-- **The carrier.** The carrier's log and the statuses of the files agree after any visits, and
whatever comes next keeps it so. -/
theorem carrier_account (visits : List Visit) : CarrierAccount config visits where
  referred k := by
    rw [← List.count_pos_iff, ← count_referrals, List.count_pos_iff, List.mem_map]
  once := by
    refine List.nodup_iff_count_le_one.mpr fun k => ?_
    rw [count_referrals]
    exact count_referred_le_one (isChain_held visits k)
  described r hr := described visits hr
  explained r hr := explained visits hr
  contact v := PolicyDesk.contact (keyed visits)

end Session

end PolicyDesk
