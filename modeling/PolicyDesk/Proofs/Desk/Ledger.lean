import Mathlib.Data.List.Basic
import PolicyDesk.Proofs.Desk.Records

/-!
# The ledger of a desk

Steps of many calls change a desk one at a time; each leaves at most one `Event`. The ledger is the
account that these events give of the records (`Ledger`).

- **Records**: the revision of a record counts the commits to it.
- **Reads**: what was read is still there unless there was a commit to it since. So a record that is
  found at the revision that was read *is* the record that was read (`Ledger.unchanged`).
- **Writes**: a commit says which revision it replaced, and no two commits to a record replaced the
  same one (`Ledger.position_unique`). A write that was stale came after another commit
  (`Ledger.overtaken`).
-/

namespace PolicyDesk

/-- Where a member of a list with one more member is. It is the last, or it was in the list before;
the induction on a trace that grows at its end needs no more. -/
theorem append_one_split {α : Type} {trace pre post : List α} {x e : α}
    (h : trace ++ [e] = pre ++ x :: post) :
    pre = trace ∧ x = e ∧ post = [] ∨ ∃ post', post = post' ++ [e] ∧ trace = pre ++ x :: post' := by
  rcases List.eq_nil_or_concat post with rfl | ⟨post', last, rfl⟩
  · obtain ⟨rfl, hx⟩ := List.append_inj' h rfl
    cases hx
    exact .inl ⟨rfl, rfl, rfl⟩
  · rw [List.concat_eq_append, ← List.cons_append, ← List.append_assoc] at h
    obtain ⟨rfl, hlast⟩ := List.append_inj' h rfl
    cases hlast
    exact .inr ⟨post', List.concat_eq_append .., rfl⟩

/-- What a step does to the records, or with them. What a caller is told is no event; only what was
seen of the store and of the carrier is. -/
inductive Event
  | read (record : Stored)
  /-- The carrier accepted a referral. -/
  | referred (referral : Referral)
  /-- A record was stored, in the place of the one at the revision `base` if there was one. -/
  | wrote (record : Stored) (base : Option UInt64)
  /-- A record was not stored, as the one in its place was not at the revision `expected`. -/
  | stale (record : Stored) (expected : UInt64)
  deriving DecidableEq

/-- An event and the ticket of the call that it belongs to. Tickets are given out in the order of
arrival, and each to one call. -/
structure Happening where
  ticket : Nat
  event : Event
  deriving DecidableEq

/-- The event stores the record of an id. It may be the first of the record or one that replaces
another. -/
def Event.commitsTo (id : RecordId) : Event → Bool
  | wrote record _ => record.id = id
  | _ => false

/-- The events of a ticket. Their order is that of the trace, whatever came between them. -/
def eventsOf (ticket : Nat) (trace : List Happening) : List Event :=
  (trace.filter fun h => h.ticket = ticket).map (·.event)

private theorem eventsOf_append (t : Nat) (pre post : List Happening) :
    eventsOf t (pre ++ post) = eventsOf t pre ++ eventsOf t post := by
  simp [eventsOf]

private theorem eventsOf_cons_self (t : Nat) (event : Event) (post : List Happening) :
    eventsOf t (⟨t, event⟩ :: post) = event :: eventsOf t post := by
  simp [eventsOf]

theorem mem_eventsOf {t : Nat} {event : Event} {trace : List Happening} :
    event ∈ eventsOf t trace ↔ ⟨t, event⟩ ∈ trace := by
  simp only [eventsOf, List.mem_map, List.mem_filter, decide_eq_true_eq]
  constructor
  · rintro ⟨⟨t', e⟩, ⟨hmem, rfl⟩, rfl⟩
    exact hmem
  · exact fun hmem => ⟨⟨t, event⟩, ⟨hmem, rfl⟩, rfl⟩

/-- An event that comes last among those of its ticket, and once, comes after all the others. So
what the call had seen by then is all that it ever saw. -/
theorem eventsOf_of_last {t : Nat} {event : Event} {before : List Event}
    {trace pre post : List Happening} (hevents : eventsOf t trace = before ++ [event])
    (hnot : event ∉ before) (hsplit : trace = pre ++ ⟨t, event⟩ :: post) :
    eventsOf t pre = before := by
  rw [hsplit, eventsOf_append, eventsOf_cons_self] at hevents
  obtain ⟨hpre, -, -⟩ | ⟨post', -, hbefore⟩ := append_one_split hevents.symm
  · exact hpre
  · exact absurd (by rw [hbefore]; simp) hnot

/-- An event that is not the last of its ticket is followed by that one. Such an event is never the
end of its call. -/
theorem last_mem_of_split {t : Nat} {event last : Event} {before : List Event}
    {trace pre post : List Happening} (hevents : eventsOf t trace = before ++ [last])
    (hne : event ≠ last) (hsplit : trace = pre ++ ⟨t, event⟩ :: post) : ⟨t, last⟩ ∈ post := by
  rw [hsplit, eventsOf_append, eventsOf_cons_self] at hevents
  obtain ⟨-, heq, -⟩ | ⟨post', hpost, -⟩ := append_one_split hevents.symm
  · exact absurd heq hne
  · exact mem_eventsOf.mp (by rw [hpost]; simp)

/-- How many times the record of an id was stored. Each of them took the record to its next
revision. -/
def commitsOn (id : RecordId) (trace : List Happening) : Nat :=
  trace.countP fun h => h.event.commitsTo id

theorem commitsOn_append (id : RecordId) (pre post : List Happening) :
    commitsOn id (pre ++ post) = commitsOn id pre + commitsOn id post :=
  List.countP_append

theorem commitsOn_cons (id : RecordId) (h : Happening) (post : List Happening) :
    commitsOn id (h :: post) = commitsOn id post + (h.event.commitsTo id).toNat := by
  rw [commitsOn, List.countP_cons]
  cases hc : h.event.commitsTo id <;> simp [commitsOn]

@[simp] theorem commitsTo_read (id : RecordId) (record : Stored) :
    (Event.read record).commitsTo id = false := rfl

@[simp] theorem commitsTo_referred (id : RecordId) (referral : Referral) :
    (Event.referred referral).commitsTo id = false := rfl

@[simp] theorem commitsTo_stale (id : RecordId) (record : Stored) (expected : UInt64) :
    (Event.stale record expected).commitsTo id = false := rfl

@[simp] theorem commitsTo_wrote (id : RecordId) (record : Stored) (base : Option UInt64) :
    (Event.wrote record base).commitsTo id = decide (record.id = id) := rfl

/-! ## Revisions -/

/-- The revision of a record that takes the place of one, or that is new. A new record starts at
zero. -/
def nextRevision : Option UInt64 → UInt64
  | none => 0
  | some n => n + 1

/-- The revision of a record after a number of commits. Before the first there is none. -/
def revisionAfter : Nat → Option UInt64
  | 0 => none
  | n + 1 => some (nextRevision (revisionAfter n))

theorem revisionAfter_succ (n : Nat) : revisionAfter (n + 1) = some (UInt64.ofNat n) := by
  induction n with
  | zero => rfl
  | succ n ih =>
    rw [revisionAfter, ih, nextRevision, ← UInt64.ofNat_one, ← UInt64.ofNat_add]

/-- Revisions tell numbers of commits apart, as long as these fit. Beyond that the revision starts
anew, and two counts could share one. -/
private theorem revisionAfter_inj {m n : Nat} (hm : m ≤ UInt64.size) (hn : n ≤ UInt64.size)
    (h : revisionAfter m = revisionAfter n) : m = n := by
  cases m with
  | zero =>
    cases n with
    | zero => rfl
    | succ n => rw [revisionAfter_succ] at h; cases h
  | succ m =>
    cases n with
    | zero => rw [revisionAfter_succ] at h; cases h
    | succ n =>
      rw [revisionAfter_succ, revisionAfter_succ, Option.some_inj] at h
      have hnat := congrArg UInt64.toNat h
      rw [UInt64.toNat_ofNat_of_lt' (by exact hm), UInt64.toNat_ofNat_of_lt' (by exact hn)] at hnat
      rw [hnat]

/-! ## What one step does -/

/-- The desk before and after a step, with the event that the step leaves. Every case but one leaves
all records as they were. -/
inductive Happens (desk desk' : Desk) : Option Event → Prop
  | nothing : (∀ id, desk'.stored? id = desk.stored? id) → Happens desk desk' none
  | read (record : Stored) : desk.stored? record.id = some record →
    (∀ id, desk'.stored? id = desk.stored? id) → Happens desk desk' (some (.read record))
  | referred (referral : Referral) : (∀ id, desk'.stored? id = desk.stored? id) →
    Happens desk desk' (some (.referred referral))
  | wrote (record : Stored) (base : Option UInt64) :
    (desk.stored? record.id).map (·.revision) = base → record.revision = nextRevision base →
    (∀ id, desk'.stored? id = if id = record.id then some record else desk.stored? id) →
    Happens desk desk' (some (.wrote record base))
  | stale (record : Stored) (expected : UInt64) :
    (desk.stored? record.id).map (·.revision) ≠ some expected →
    (∀ id, desk'.stored? id = desk.stored? id) →
    Happens desk desk' (some (.stale record expected))

/-! ## The ledger -/

/-- The events so far account for the records of the desk. It speaks of any way in which a trace can
be split, so that nothing in it depends on the end of the trace. -/
structure Ledger (desk : Desk) (trace : List Happening) : Prop where
  keyed : desk.Keyed
  records : ∀ id, (desk.stored? id).map (·.revision) = revisionAfter (commitsOn id trace)
  reads : ∀ pre t record post, trace = pre ++ ⟨t, .read record⟩ :: post →
    some record.revision = revisionAfter (commitsOn record.id pre) ∧
      (commitsOn record.id post = 0 → desk.stored? record.id = some record)
  writes : ∀ pre t record base post, trace = pre ++ ⟨t, .wrote record base⟩ :: post →
    base = revisionAfter (commitsOn record.id pre)
  stales : ∀ pre t record expected post, trace = pre ++ ⟨t, .stale record expected⟩ :: post →
    revisionAfter (commitsOn record.id pre) ≠ some expected

namespace Ledger

theorem empty : Ledger .empty [] where
  keyed id record h := by simp at h
  records id := by simp [commitsOn, revisionAfter]
  reads pre t record post h := by simp at h
  writes pre t record base post h := by simp at h
  stales pre t record expected post h := by simp at h

variable {desk desk' : Desk} {trace : List Happening}

/-- A step that leaves no event keeps the ledger. Only what is stored is looked at. -/
theorem quiet (h : Ledger desk trace) (hsame : ∀ id, desk'.stored? id = desk.stored? id) :
    Ledger desk' trace where
  keyed id record hs := h.keyed id record (by rwa [← hsame])
  records id := by rw [hsame, h.records]
  reads pre t record post hsplit := by
    obtain ⟨hrev, hstill⟩ := h.reads pre t record post hsplit
    exact ⟨hrev, fun hnone => by rw [hsame, hstill hnone]⟩
  writes := h.writes
  stales := h.stales

/-- A step that leaves an event and changes no record keeps the ledger. What a read or a stale write
claims must be so at this moment. -/
theorem noted (h : Ledger desk trace) (t : Nat) {event : Event}
    (hsame : ∀ id, desk'.stored? id = desk.stored? id) (hc : ∀ id, event.commitsTo id = false)
    (hread : ∀ record, event = .read record → desk.stored? record.id = some record)
    (hstale : ∀ record expected, event = .stale record expected →
      (desk.stored? record.id).map (·.revision) ≠ some expected) :
    Ledger desk' (trace ++ [⟨t, event⟩]) where
  keyed := (h.quiet hsame).keyed
  records id := by
    rw [hsame, h.records, commitsOn_append, commitsOn_cons, hc]
    rfl
  reads pre t' record post hsplit := by
    obtain ⟨rfl, heq, rfl⟩ | ⟨post', rfl, hsplit'⟩ := append_one_split hsplit
    · cases heq
      have hs := hread record rfl
      refine ⟨?_, fun _ => by rw [hsame, hs]⟩
      rw [← h.records, hs]
      rfl
    · obtain ⟨hrev, hstill⟩ := h.reads pre t' record post' hsplit'
      refine ⟨hrev, fun hnone => ?_⟩
      rw [commitsOn_append] at hnone
      rw [hsame, hstill (by omega)]
  writes pre t' record base post hsplit := by
    obtain ⟨rfl, heq, rfl⟩ | ⟨post', rfl, hsplit'⟩ := append_one_split hsplit
    · cases heq
      have := hc record.id
      simp at this
    · exact h.writes pre t' record base post' hsplit'
  stales pre t' record expected post hsplit := by
    obtain ⟨rfl, heq, rfl⟩ | ⟨post', rfl, hsplit'⟩ := append_one_split hsplit
    · cases heq
      rw [← h.records]
      exact hstale record expected rfl
    · exact h.stales pre t' record expected post' hsplit'

/-- A commit keeps the ledger. The commits to the record before it are counted by its base. -/
theorem committed (h : Ledger desk trace) (t : Nat) {record : Stored} {base : Option UInt64}
    (hbase : (desk.stored? record.id).map (·.revision) = base)
    (hrev : record.revision = nextRevision base)
    (hstore : ∀ id, desk'.stored? id = if id = record.id then some record else desk.stored? id) :
    Ledger desk' (trace ++ [⟨t, .wrote record base⟩]) where
  keyed id found hs := by
    rw [hstore] at hs
    split at hs
    · rename_i hid
      cases hs
      exact hid.symm
    · exact h.keyed id found hs
  records id := by
    rw [hstore, commitsOn_append, commitsOn_cons]
    by_cases hid : id = record.id
    · subst hid
      rw [if_pos rfl, commitsTo_wrote, decide_eq_true rfl]
      simp only [Option.map_some, hrev, ← hbase, h.records]
      rfl
    · rw [if_neg hid, h.records, commitsTo_wrote, decide_eq_false (Ne.symm hid)]
      rfl
  reads pre t' found post hsplit := by
    obtain ⟨rfl, heq, rfl⟩ | ⟨post', rfl, hsplit'⟩ := append_one_split hsplit
    · cases heq
    · obtain ⟨hr, hstill⟩ := h.reads pre t' found post' hsplit'
      refine ⟨hr, fun hnone => ?_⟩
      rw [commitsOn_append, commitsOn_cons, commitsTo_wrote] at hnone
      by_cases hid : record.id = found.id
      · simp [hid] at hnone
      · rw [hstore, if_neg (Ne.symm hid), hstill (by omega)]
  writes pre t' found b post hsplit := by
    obtain ⟨rfl, heq, rfl⟩ | ⟨post', rfl, hsplit'⟩ := append_one_split hsplit
    · cases heq
      rw [← hbase, h.records]
    · exact h.writes pre t' found b post' hsplit'
  stales pre t' found expected post hsplit := by
    obtain ⟨rfl, heq, rfl⟩ | ⟨post', rfl, hsplit'⟩ := append_one_split hsplit
    · cases heq
    · exact h.stales pre t' found expected post' hsplit'

/-- Every step keeps the ledger. The step may be one of any call. -/
theorem step (h : Ledger desk trace) (t : Nat) {event : Option Event}
    (hstep : Happens desk desk' event) :
    Ledger desk' (trace ++ (event.map (Happening.mk t)).toList) := by
  cases hstep with
  | nothing hsame => simpa using h.quiet hsame
  | read record hs hsame =>
    refine h.noted t hsame (fun _ => rfl) (fun found heq => ?_) (by simp)
    cases heq
    exact hs
  | referred r hsame => exact h.noted t hsame (fun _ => rfl) (by simp) (by simp)
  | wrote record base hbase hrev hstore => exact h.committed t hbase hrev hstore
  | stale record expected hmoved hsame =>
    refine h.noted t hsame (fun _ => rfl) (by simp) fun found n heq => ?_
    cases heq
    exact hmoved

/-- A record that was read is still stored, in some state. Records are never taken away. -/
theorem there_of_read (h : Ledger desk trace) {t : Nat} {record : Stored}
    (hread : ⟨t, .read record⟩ ∈ trace) : (desk.stored? record.id).isSome := by
  obtain ⟨pre, post, hsplit⟩ := List.append_of_mem hread
  obtain ⟨hrev, -⟩ := h.reads pre t record post hsplit
  have hcount : commitsOn record.id pre ≠ 0 := by
    intro hzero
    rw [hzero] at hrev
    cases hrev
  have hsome : (revisionAfter (commitsOn record.id trace)).isSome := by
    rw [hsplit, commitsOn_append]
    obtain ⟨n, hn⟩ := Nat.exists_eq_succ_of_ne_zero hcount
    rw [hn, Nat.succ_add, revisionAfter_succ]
    rfl
  rwa [← h.records, Option.isSome_map] at hsome

/-- **No change goes unseen.** A record at the revision that was read is the one that was read. This
is what makes the check of the revision enough: nothing else of the record is compared. -/
theorem unchanged (h : Ledger desk trace) {pre post : List Happening} {t : Nat}
    {record found : Stored} (hread : trace = pre ++ ⟨t, .read record⟩ :: post)
    (hfew : commitsOn record.id trace ≤ UInt64.size) (hs : desk.stored? record.id = some found)
    (hrev : found.revision = record.revision) :
    found = record ∧ commitsOn record.id post = 0 := by
  obtain ⟨hr, hstill⟩ := h.reads pre t record post hread
  have hcount : commitsOn record.id trace =
      commitsOn record.id pre + commitsOn record.id post := by
    rw [hread, commitsOn_append, commitsOn_cons]
    rfl
  have hnow : revisionAfter (commitsOn record.id trace) =
      revisionAfter (commitsOn record.id pre) := by
    rw [← h.records, hs, ← hr, Option.map_some, hrev]
  -- The revisions are equal, so the counts of commits are; there is none after the read.
  have hnone : commitsOn record.id post = 0 := by
    have := revisionAfter_inj hfew (by omega) hnow
    omega
  exact ⟨Option.some.inj (hs.symm.trans (hstill hnone)), hnone⟩

/-- A stale write comes after a commit that the call had not seen. So a caller who is told so has in
fact been too late. -/
theorem overtaken (h : Ledger desk trace) {pre between post : List Happening} {t : Nat}
    {record changed : Stored}
    (hsplit : trace = pre ++ ⟨t, .read record⟩ ::
      (between ++ ⟨t, .stale changed record.revision⟩ :: post))
    (hid : changed.id = record.id) : commitsOn record.id between ≠ 0 := by
  obtain ⟨hread, -⟩ := h.reads pre t record _ hsplit
  have hstale := h.stales (pre ++ ⟨t, .read record⟩ :: between) t changed record.revision post
    (by rw [hsplit]; simp)
  -- Without a commit in between, the revision that was read would still be the one expected.
  intro hnone
  rw [hid, commitsOn_append, commitsOn_cons, hnone] at hstale
  exact hstale hread.symm

/-- **Each revision is replaced once.** Of the calls that read one revision, one wins at most. -/
theorem position_unique (h : Ledger desk trace) {pre post pre' post' : List Happening} {t t' : Nat}
    {record record' : Stored} {base : Option UInt64}
    (hw : trace = pre ++ ⟨t, .wrote record base⟩ :: post)
    (hw' : trace = pre' ++ ⟨t', .wrote record' base⟩ :: post') (hid : record.id = record'.id)
    (hfew : commitsOn record.id trace ≤ UInt64.size) : pre = pre' ∧ t = t' ∧ record = record' := by
  have hbase := h.writes pre t record base post hw
  have hbase' := h.writes pre' t' record' base post' hw'
  have hle : commitsOn record.id pre ≤ UInt64.size := by
    rw [hw, commitsOn_append] at hfew
    omega
  have hle' : commitsOn record.id pre' ≤ UInt64.size := by
    rw [hw', commitsOn_append] at hfew
    omega
  have hcount : commitsOn record.id pre = commitsOn record.id pre' :=
    revisionAfter_inj hle hle' (by rw [← hbase, hbase', hid])
  obtain ⟨mid, hpre, hrest⟩ | ⟨mid, hpre, hrest⟩ := List.append_eq_append_iff.mp (hw ▸ hw')
  · cases mid with
    | nil =>
      rw [List.nil_append] at hrest
      cases hrest
      exact ⟨by simpa using hpre.symm, rfl, rfl⟩
    | cons x mid =>
      cases hrest
      rw [hpre, commitsOn_append, commitsOn_cons, commitsTo_wrote, decide_eq_true rfl] at hcount
      simp at hcount
  · cases mid with
    | nil =>
      rw [List.nil_append] at hrest
      cases hrest
      exact ⟨by simpa using hpre, rfl, rfl⟩
    | cons x mid =>
      cases hrest
      rw [hpre, commitsOn_append, commitsOn_cons, commitsTo_wrote,
        decide_eq_true hid.symm] at hcount
      simp at hcount

end Ledger

end PolicyDesk
