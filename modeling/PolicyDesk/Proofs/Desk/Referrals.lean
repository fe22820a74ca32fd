import PolicyDesk.Proofs.Desk.Runs
import PolicyDesk.Proofs.Desk.Serializable
import PolicyDesk.Proofs.Desk.Stages

/-!
# What the carrier is told

A call tells the carrier before it writes the file, so that a refusal leaves the file as it was. A
call that is overtaken by another has then told the carrier in vain, and the carrier may hear of a
policy twice (`Floor.referred_twice`). What holds of every run (`Floor.carrier_told`):

- a file moves to the carrier only after the call that moves it has told the carrier, and it does so
  once;
- a call that has told the carrier moves the file, unless another call stores the file between its
  read and its write; its write is then stale;
- so of the calls that are not overtaken one at most tells the carrier of a policy.
-/

namespace PolicyDesk

/-- The referrals that the carrier accepted. They are listed in the order in which the calls sent
them. -/
def referralsOf (trace : List Happening) : List Referral :=
  trace.filterMap fun h =>
    match h.event with
    | .referred r => some r
    | _ => none

/-- The event moves the file of a policy to the carrier. Later writes of a file that stays there
would count as well, but the graph has none. -/
def Event.movesToCarrier (k : PolicyId) : Event → Bool
  | wrote (.file f) _ => decide (f.policyId = k) && decide (f.status = .referredToCarrier)
  | _ => false

/-- How many times the file of a policy was moved to the carrier. Writes of other policies do not
count. -/
def carrierMoves (k : PolicyId) (trace : List Happening) : Nat :=
  trace.countP fun h => h.event.movesToCarrier k

/-- What happens once at most happens at one place. A count is easier to keep along a run than a
statement about places. -/
private theorem eq_of_countP_le_one {α : Type} {p : α → Bool} {l : List α} (h : l.countP p ≤ 1)
    {x y : α}
    (hx : x ∈ l) (hpx : p x = true) (hy : y ∈ l) (hpy : p y = true) : x = y := by
  rw [List.countP_eq_length_filter] at h
  have hx' : x ∈ l.filter p := List.mem_filter.mpr ⟨hx, hpx⟩
  have hy' : y ∈ l.filter p := List.mem_filter.mpr ⟨hy, hpy⟩
  match hl : l.filter p with
  | [] => simp [hl] at hx'
  | [z] =>
    rw [hl, List.mem_singleton] at hx' hy'
    rw [hx', hy']
  | z :: z' :: rest => simp [hl] at h

/-- The write of a call is stale, and between its read and that write another call stored the
record. -/
def Overtaken (t : Nat) (id : RecordId) (trace : List Happening) : Prop :=
  ∃ pre record between changed expected post,
    trace = pre ++ ⟨t, .read record⟩ :: (between ++ ⟨t, .stale changed expected⟩ :: post) ∧
    record.id = id ∧ ∃ h ∈ between, h.ticket ≠ t ∧ h.event.commitsTo id = true

/-- What the carrier is told on a floor. The first three parts need no bound on commits; the last
two rest on the revisions. -/
structure CarrierTold (floor : Floor) : Prop where
  /-- The carrier has what the calls told it. -/
  heard : floor.desk.referrals = referralsOf floor.trace
  /-- A file moves to the carrier after a referral by the same call. -/
  preceded : ∀ pre t f base post, floor.trace = pre ++ ⟨t, .wrote (.file f) base⟩ :: post →
    f.status = .referredToCarrier → ∃ r, ⟨t, .referred r⟩ ∈ pre ∧ r.policyId = f.policyId
  /-- A referral is followed by the move of the file by the same call, unless the call is still to
  write or was overtaken. -/
  followed : ∀ pre t r post, floor.trace = pre ++ ⟨t, .referred r⟩ :: post →
    (∃ f base, ⟨t, .wrote (.file f) base⟩ ∈ post ∧ f.policyId = r.policyId ∧
      f.status = .referredToCarrier) ∨
    (∃ task, floor.tasks[t]? = some task ∧ task.reply? = none) ∨
    (∃ v, floor.visit? t = some v ∧ floor.reply? t = some (v.call.failed .stale) ∧
      Overtaken t (.file r.policyId) floor.trace)
  /-- A file moves to the carrier once. -/
  movedOnce : (∀ id, commitsOn id floor.trace ≤ UInt64.size) → ∀ k,
    carrierMoves k floor.trace ≤ 1
  /-- Of the calls that commit, one at most tells the carrier of a policy. -/
  toldOnce : (∀ id, commitsOn id floor.trace ≤ UInt64.size) → ∀ t t' r r',
    ⟨t, .referred r⟩ ∈ floor.trace → ⟨t', .referred r'⟩ ∈ floor.trace →
    r.policyId = r'.policyId → t ∈ floor.commits → t' ∈ floor.commits → t = t' ∧ r = r'

/-! ## The events of a call that refers -/

section

variable {config : EvaluationConfig Float} {v : Visit} {desk desk' : Desk} {own : List Event}
  {rest : Script Reply} {event : Option Event}

/-- A call that has told the carrier is to write, has moved the file or was overtaken. In every case
it had read the file before. -/
theorem Progress.referred_cases (h : Progress config v own rest) {r : Referral}
    (hr : .referred r ∈ own) :
    ∃ a, Amending config v.call a ∧ a.referral = some r ∧
      (own = a.before ∧ rest = v.call.write a ∨
        own = a.before ++ [.wrote a.changed (some a.source.revision)] ∨
        own = a.before ++ [.stale a.changed a.source.revision] ∧
          rest = .done (v.call.failed .stale)) := by
  cases h with
  | writing a ha _ =>
    have hreferral : a.referral = some r := by simpa [Amendment.before] using hr
    exact ⟨a, ha, hreferral, .inl ⟨rfl, rfl⟩⟩
  | committed a ha _ =>
    have hreferral : a.referral = some r := by simpa [Amendment.before] using hr
    exact ⟨a, ha, hreferral, .inr (.inl rfl)⟩
  | overtaken a ha _ =>
    have hreferral : a.referral = some r := by simpa [Amendment.before] using hr
    exact ⟨a, ha, hreferral, .inr (.inr ⟨rfl, rfl⟩)⟩
  | fresh => simp at hr
  | referring a r _ _ => simp at hr
  | opened record reply _ => simp at hr
  | missed reply => simp at hr
  | looked record reply => simp at hr

/-- A file is moved by a call that refers it. The policy is that of the file, whichever id the call
named. -/
private theorem Progress.referral_of_move (h : Progress config v own rest) {f : UnderwritingFile}
    {base : Option UInt64} (hw : .wrote (.file f) base ∈ own) (hs : f.status = .referredToCarrier) :
    ∃ (a : Amendment) (r : Referral), own = a.before ++ [.wrote (.file f) base] ∧
      a.referral = some r ∧ r.policyId = f.policyId := by
  obtain ⟨-, -, hopens⟩ | ⟨a, ha, hown, hc, -⟩ := h.commit_cases hw
  · cases hopens
    cases hs
  · obtain ⟨r, hr, hk⟩ := ha.amends.referral_of_referred ha.target hc.symm hs
    exact ⟨a, r, hown, hr, hk⟩

end

namespace Floor

variable {config : EvaluationConfig Float} {floor : Floor}

/-! ## Around one referral -/

theorem Sound.preceded (h : floor.Sound config) {pre post : List Happening} {t : Nat}
    {f : UnderwritingFile} {base : Option UInt64}
    (hsplit : floor.trace = pre ++ ⟨t, .wrote (.file f) base⟩ :: post)
    (hs : f.status = .referredToCarrier) :
    ∃ r, ⟨t, .referred r⟩ ∈ pre ∧ r.policyId = f.policyId := by
  have hmem : ⟨t, .wrote (.file f) base⟩ ∈ floor.trace := by rw [hsplit]; simp
  have ht := List.getElem?_eq_getElem (h.tickets _ hmem)
  obtain ⟨a, r, hown, hr, hk⟩ := (h.progress ht).referral_of_move (mem_own.mpr hmem) hs
  have hpre : eventsOf t pre = a.before :=
    eventsOf_of_last hown (by simp [Amendment.before]) hsplit
  exact ⟨r, mem_eventsOf.mp (by rw [hpre]; simp [Amendment.before, hr]), hk⟩

/-- A call whose write was stale has been overtaken by another call. That the ledger has a commit
between its read and its write is what makes the write stale. -/
theorem Sound.overtaken (h : floor.Sound config) {t : Nat} {a : Amendment}
    (hown : floor.own t = a.before ++ [.stale a.changed a.source.revision])
    (hid : a.changed.id = a.source.id) : Overtaken t a.source.id floor.trace := by
  have hstale : .stale a.changed a.source.revision ∈ floor.own t := by simp [hown]
  obtain ⟨front, post, hfront⟩ := List.append_of_mem (mem_own.mp hstale)
  have hbefore : eventsOf t front = a.before :=
    eventsOf_of_last hown (by simp [Amendment.before]) hfront
  have hread : ⟨t, .read a.source⟩ ∈ front :=
    mem_eventsOf.mp (by rw [hbefore]; simp [Amendment.before])
  obtain ⟨pre, between, rfl⟩ := List.append_of_mem hread
  rw [List.append_assoc, List.cons_append] at hfront
  obtain ⟨other, hmem, hcommit⟩ := List.countP_pos_iff.mp
    (Nat.pos_of_ne_zero (h.ledger.overtaken hfront hid))
  refine ⟨pre, a.source, between, a.changed, a.source.revision, post, hfront, rfl, other, hmem,
    ?_, hcommit⟩
  rintro rfl
  have hwrote : other.event ∈ a.before := by
    rw [← hbefore, mem_eventsOf]
    simp [hmem]
  cases he : other.event with
  | wrote record base => simp [he, Amendment.before] at hwrote
  | _ => simp [he] at hcommit

theorem Sound.followed (h : floor.Sound config) {pre post : List Happening} {t : Nat} {r : Referral}
    (hsplit : floor.trace = pre ++ ⟨t, .referred r⟩ :: post) :
    (∃ f base, ⟨t, .wrote (.file f) base⟩ ∈ post ∧ f.policyId = r.policyId ∧
      f.status = .referredToCarrier) ∨
    (∃ task, floor.tasks[t]? = some task ∧ task.reply? = none) ∨
    (∃ v, floor.visit? t = some v ∧ floor.reply? t = some (v.call.failed .stale) ∧
      Overtaken t (.file r.policyId) floor.trace) := by
  have hmem : ⟨t, .referred r⟩ ∈ floor.trace := by rw [hsplit]; simp
  have ht := List.getElem?_eq_getElem (h.tickets _ hmem)
  obtain ⟨a, ha, hr, hcase⟩ := (h.progress ht).referred_cases (mem_own.mpr hmem)
  obtain ⟨f, hc, hs, hk⟩ := ha.amends.referred_of_referral ha.target hr
  obtain ⟨-, hrest⟩ | hown | ⟨hown, hrest⟩ := hcase
  · refine .inr (.inl ⟨_, ht, ?_⟩)
    rw [Task.reply?, hrest]
    rfl
  · rw [hc] at hown
    exact .inl ⟨f, _, last_mem_of_split hown (by simp) hsplit, hk, hs⟩
  · refine .inr (.inr ⟨_, by rw [visit?, ht]; rfl, ?_, ?_⟩)
    · rw [reply?, ht, Option.bind_some, Task.reply?, hrest]
    · have hid : a.source.id = .file r.policyId := by
        rw [← ha.amends.id_eq, hc, Stored.id_file, hk]
      exact hid ▸ h.overtaken hown ha.amends.id_eq

/-! ## One move of each file -/

/-- A file has moved to the carrier at most once, and if it has it is past that. The second part is
what keeps the first: nothing leads back to the carrier. -/
structure MovedOnce (floor : Floor) (k : PolicyId) : Prop where
  atMost : carrierMoves k floor.trace ≤ 1
  past : carrierMoves k floor.trace ≠ 0 →
    ∃ f, floor.desk.stored? (.file k) = some (.file f) ∧ f.status.pastReferral = true

namespace MovedOnce

variable {k : PolicyId} {t : Nat} {v : Visit} {rest : Script Reply} {desk : Desk}
  {event : Option Event}

/-- A step that leaves the file as it is. It may change other records. -/
theorem other (h : MovedOnce floor k)
    (hsame : desk.stored? (.file k) = floor.desk.stored? (.file k))
    (hevent : ∀ e, event = some e → e.movesToCarrier k = false) :
    MovedOnce (floor.after t v rest desk event) k := by
  have hmoves : carrierMoves k (floor.after t v rest desk event).trace =
      carrierMoves k floor.trace := by
    cases event with
    | none => simp [after]
    | some e => simp [after, carrierMoves, hevent e rfl]
  refine ⟨hmoves ▸ h.atMost, fun hne => ?_⟩
  obtain ⟨f, hf, hpast⟩ := h.past (hmoves ▸ hne)
  exact ⟨f, by rw [after, hsame, hf], hpast⟩

/-- A new file. It starts before its review, so the count stays at zero. -/
theorem opened {f : UnderwritingFile} (h : MovedOnce floor f.policyId)
    (hfree : floor.desk.stored? (.file f.policyId) = none)
    (hs : f.status = .pendingReview) :
    MovedOnce (floor.after t v rest desk (some (.wrote (.file f) none))) f.policyId := by
  have hzero : carrierMoves f.policyId floor.trace = 0 := by
    -- A file that had moved would be stored, and its id was free.
    refine Classical.byContradiction fun hne => ?_
    obtain ⟨g, hg, -⟩ := h.past hne
    rw [hfree] at hg
    cases hg
  have hafter : carrierMoves f.policyId
      (floor.after t v rest desk (some (.wrote (.file f) none))).trace = 0 := by
    simpa [after, carrierMoves, Event.movesToCarrier, hs] using hzero
  exact ⟨by rw [hafter]; exact Nat.zero_le 1, fun hne => absurd hafter hne⟩

/-- A move of the file along the graph. The first move to the carrier may be this one; a second
there is not. -/
theorem moved {f₀ f : UnderwritingFile} {base : Option UInt64} (h : MovedOnce floor f.policyId)
    (hcurrent : floor.desk.stored? (.file f.policyId) = some (.file f₀))
    (hmove : f.status ∈ WorkflowStatus.allowedNext f₀.status)
    (hstore : desk.stored? (.file f.policyId) = some (.file f)) :
    MovedOnce (floor.after t v rest desk (some (.wrote (.file f) base))) f.policyId := by
  have hmoves : carrierMoves f.policyId
      (floor.after t v rest desk (some (.wrote (.file f) base))).trace =
      carrierMoves f.policyId floor.trace + (decide (f.status = .referredToCarrier)).toNat := by
    by_cases hs : f.status = .referredToCarrier <;>
      simp [after, carrierMoves, Event.movesToCarrier, hs]
  -- Before the first move the count may go up by one; after it the status cannot come back.
  by_cases hzero : carrierMoves f.policyId floor.trace = 0
  · rw [hzero, Nat.zero_add] at hmoves
    refine ⟨hmoves ▸ Bool.toNat_le _, fun hne => ⟨f, hstore, ?_⟩⟩
    have hs : f.status = .referredToCarrier := by
      rw [hmoves] at hne
      simpa using hne
    rw [hs]
    rfl
  · obtain ⟨g, hg, hpast⟩ := h.past hzero
    rw [hcurrent] at hg
    cases hg
    obtain ⟨hpast', hne⟩ := UnderwritingStatus.pastReferral_of_move hpast hmove
    rw [decide_eq_false hne, Bool.toNat_false, Nat.add_zero] at hmoves
    exact ⟨hmoves ▸ h.atMost, fun _ => ⟨f, hstore, hpast'⟩⟩

/-- Every step. Only the commit of a call that writes this file needs the graph. -/
theorem after {task : Task} (h : MovedOnce floor k) (hsound : floor.Sound config)
    (hfew : ∀ id, commitsOn id floor.trace ≤ UInt64.size)
    (ha : Advance config task.visit floor.desk (floor.own t) rest desk event) :
    MovedOnce (floor.after t task.visit rest desk event) k := by
  cases ha with
  | missed _ _ => exact h.other rfl (by simp)
  | wasted _ _ _ _ _ => exact h.other (Desk.stored?_drawNumber _ _) (by simp)
  | looked _ _ _ _ => exact h.other rfl (by simp [Event.movesToCarrier])
  | began _ _ _ _ => exact h.other rfl (by simp [Event.movesToCarrier])
  | told _ _ _ _ _ _ => exact h.other (Desk.stored?_told _ _ _) (by simp [Event.movesToCarrier])
  | untold _ _ _ _ _ _ _ => exact h.other rfl (by simp)
  | overtaken _ _ _ _ _ => exact h.other rfl (by simp [Event.movesToCarrier])
  | openedFile a _ _ _ hi =>
    by_cases hk : k = a.policyId
    · subst hk
      exact MovedOnce.opened h (Desk.free_of_insert hi) rfl
    · refine h.other ?_ ?_
      · rw [Desk.stored?_of_insert hi]
        simp [hk]
      · simp [Event.movesToCarrier, Ne.symm hk]
  | openedClaim request _ _ _ _ hi =>
    refine h.other ?_ (by simp [Event.movesToCarrier])
    rw [Desk.stored?_of_insert hi, Desk.stored?_drawNumber]
    simp
  | committed a _ hown hcall _ hu =>
    -- What is replaced is what was read, so the move is an edge from the stored status.
    have hcurrent := hsound.current hfew hown hcall hu
    have hstore := Desk.stored?_of_update hu
    cases hc : a.changed with
    | claim c =>
      rw [hc] at hstore
      refine h.other ?_ (by simp [Event.movesToCarrier])
      rw [hstore]
      simp
    | file f =>
      rw [hc] at hstore
      by_cases hk : k = f.policyId
      · subst hk
        obtain ⟨f₀, hsource, hid, hmove⟩ := hcall.amends.file_of_changed hc
        rw [hsource, Stored.id_file, hid] at hcurrent
        exact h.moved hcurrent hmove (by rw [hstore]; simp)
      · refine h.other ?_ ?_
        · rw [hstore]
          simp [hk]
        · simp [Event.movesToCarrier, Ne.symm hk]

end MovedOnce

private theorem movedOnce (moves : List Move)
    (hfew : ∀ id, commitsOn id (run config moves).trace ≤ UInt64.size) (k : PolicyId) :
    MovedOnce (run config moves) k := by
  revert hfew
  refine induction (P := fun floor => (∀ id, commitsOn id floor.trace ≤ UInt64.size) →
    MovedOnce floor k) ?_ ?_ ?_ moves
  · exact fun _ => ⟨Nat.zero_le 1, fun hne => absurd rfl hne⟩
  · exact fun floor v _ ih hfew => ⟨(ih hfew).atMost, (ih hfew).past⟩
  · intro floor t task rest desk event hsound ih ht hopen ha hfew
    exact (ih (few_of_after hfew)).after hsound (few_of_after hfew) ha

/-- The carrier has what the calls told it. It is told in the order of the trace. -/
theorem heard (moves : List Move) :
    (run config moves).desk.referrals = referralsOf (run config moves).trace := by
  refine induction (P := fun floor => floor.desk.referrals = referralsOf floor.trace) ?_ ?_ ?_ moves
  · rfl
  · exact fun _ _ _ ih => ih
  · intro floor t task rest desk event _ ih _ _ ha
    show desk.referrals = referralsOf (floor.trace ++ _)
    rw [referralsOf, List.filterMap_append, ← referralsOf, ← ih]
    cases ha with
    | openedFile _ _ _ _ hi => simp [Desk.referrals_of_insert hi]
    | openedClaim _ _ _ _ _ hi => simp [Desk.referrals_of_insert hi, Desk.drawNumber]
    | committed _ _ _ _ _ hu => simp [Desk.referrals_of_update hu]
    | told _ r _ _ _ _ => simp [Desk.told]
    | wasted _ _ _ _ _ => simp [Desk.drawNumber]
    | _ => simp

/-- A call that told the carrier and committed has moved the file. It did so with the write that
ended it. -/
theorem Sound.carried (h : floor.Sound config) {t : Nat} {r : Referral}
    (hr : .referred r ∈ floor.own t) (hcommit : t ∈ floor.commits) :
    ∃ (a : Amendment) (f : UnderwritingFile) (base : Option UInt64),
      floor.own t = a.before ++ [.wrote (.file f) base] ∧ a.referral = some r ∧
        (Event.wrote (.file f) base).movesToCarrier r.policyId = true := by
  obtain ⟨record, base, hw⟩ := mem_commits.mp hcommit
  have hmem := mem_own.mpr hw
  have ht := List.getElem?_eq_getElem (h.lt_of_mem_commits hcommit)
  obtain ⟨a, ha, hreferral, ⟨hown, -⟩ | hown | ⟨hown, -⟩⟩ := (h.progress ht).referred_cases hr
  · simp [hown, Amendment.before] at hmem
  · obtain ⟨f, hc, hs, hk⟩ := ha.amends.referred_of_referral ha.target hreferral
    rw [hc] at hown
    exact ⟨a, f, _, hown, hreferral, by simp [Event.movesToCarrier, hs, hk]⟩
  · simp [hown, Amendment.before] at hmem

/-- Of the calls that commit, one at most tells the carrier of a policy. It is enough that the file
of the policy is moved once. -/
private theorem Sound.told_once (h : floor.Sound config) {t t' : Nat} {r r' : Referral}
    (hone : carrierMoves r.policyId floor.trace ≤ 1) (hr : .referred r ∈ floor.own t)
    (hr' : .referred r' ∈ floor.own t') (hk : r.policyId = r'.policyId)
    (hcommit : t ∈ floor.commits) (hcommit' : t' ∈ floor.commits) : t = t' ∧ r = r' := by
  obtain ⟨a, f, base, hown, hreferral, hmoves⟩ := h.carried hr hcommit
  obtain ⟨a', f', base', hown', hreferral', hmoves'⟩ := h.carried hr' hcommit'
  rw [← hk] at hmoves'
  have hmem : ⟨t, .wrote (.file f) base⟩ ∈ floor.trace := mem_own.mp (by rw [hown]; simp)
  have hmem' : ⟨t', .wrote (.file f') base'⟩ ∈ floor.trace := mem_own.mp (by rw [hown']; simp)
  have hsame := eq_of_countP_le_one hone hmem hmoves hmem' hmoves'
  obtain rfl : t = t' := congrArg Happening.ticket hsame
  rw [hown] at hown'
  have hbefore := (List.append_inj' hown' rfl).1
  simp only [Amendment.before, hreferral, hreferral', Option.toList_some, List.map_cons,
    List.map_nil, List.cons.injEq, Event.referred.injEq, and_true] at hbefore
  exact ⟨rfl, hbefore.2⟩

/-! ## The theorem -/

/-- **What the carrier is told**, whatever the order of the steps of any number of calls. Each part
is proved above for itself. -/
theorem carrier_told (moves : List Move) : CarrierTold (run config moves) where
  heard := heard moves
  preceded pre t f base post hsplit hs := (sound moves).preceded hsplit hs
  followed pre t r post hsplit := (sound moves).followed hsplit
  movedOnce hfew k := (movedOnce moves hfew k).atMost
  toldOnce hfew t t' r r' hr hr' hk hcommit hcommit' := by
    have hsound : (run config moves).Sound config := sound moves
    exact hsound.told_once (movedOnce moves hfew _).atMost (mem_own.mpr hr) (mem_own.mpr hr') hk
      hcommit hcommit'

/-- The carrier accepts every referral and hears twice of one policy: once from a call that does not
move the file. -/
theorem referred_twice :
    (∀ v, .start v ∈ race → v.carrier = .ok ()) ∧
      (run .standard race).desk.referrals.map (·.policyId) = ["pol-1", "pol-1"] ∧
      (∃ r ∈ referralsOf ((run .standard race).trace.filter fun h => h.ticket = 2),
        r.policyId = "pol-1") ∧
      2 ∉ (run .standard race).commits ∧
      (run .standard race).reply? 2 = some (.outcome (.error (.store .stale))) := by
  refine ⟨fun v hv => ?_, by decide +kernel, by decide +kernel, by decide +kernel, rfl⟩
  simp only [race, List.mem_cons, Move.start.injEq, reduceCtorEq, List.not_mem_nil, or_false,
    false_or] at hv
  obtain rfl | rfl | rfl := hv <;> rfl

end Floor

end PolicyDesk
