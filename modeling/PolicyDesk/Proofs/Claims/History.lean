import Mathlib.Data.List.Chain
import PolicyDesk.Proofs.Desk.Runs

/-!
# The history of a claim

What the audit trail of a claim tells, and what has come before every payment.
-/

namespace PolicyDesk

/-! ## The audit chain of a claim

- **State** (`Claim.Audited`): the history of a claim leads from NEW to its status along the graph,
  and its revision counts the changes.
- **Growth** (`Claim.Extends`): over time a claim only gets more history.

Every claim of a desk that is reached is audited (`Desk.Reached.audited`), and both hold over every
session (`Session.audit_chain`). -/

section

open WorkflowStatus (allowedNext)

namespace Claim

/-- The history of a claim accounts for its status and its revision. -/
structure Audited (c : Claim) : Prop where
  /-- A claim without history is new. -/
  fresh : c.history = [] → c.status = .new
  first : ∀ e ∈ c.history.head?, e.source = .new
  linked : c.history.IsChain fun e f => e.target = f.source
  last : ∀ e ∈ c.history.getLast?, e.target = c.status
  edges : ∀ e ∈ c.history, e.target ∈ allowedNext e.source
  notes : ∀ e ∈ c.history, ∀ note ∈ e.note, Text.isBlank note = false
  counted : c.revision = UInt64.ofNat c.history.length
  shown : c.view.changes = c.history.length

/-- A later state of a claim. What a claim was opened with stays, and so does what its history says.
-/
structure Extends (c later : Claim) : Prop where
  claimId : later.claimId = c.claimId
  policyId : later.policyId = c.policyId
  description : later.description = c.description
  history : c.history <+: later.history

theorem Extends.refl (c : Claim) : c.Extends c := ⟨rfl, rfl, rfl, List.prefix_rfl⟩

theorem Extends.withChange {c later : Claim} (h : c.Extends later) (entry : StatusChange) :
    c.Extends (later.withChange entry) :=
  ⟨h.claimId, h.policyId, h.description, h.history.trans (List.prefix_append _ _)⟩

theorem Audited.ofRequest (claimId : ClaimId) (request : OpenClaim) :
    (ofRequest claimId request).Audited := by
  constructor <;> simp [Claim.ofRequest, view]

/-- The status that the next change leaves is where the history leads. -/
theorem Audited.standing {c : Claim} (h : c.Audited) :
    c.history = [] ∧ c.status = .new ∨
      ∃ e, c.history.getLast? = some e ∧ e.target = c.status := by
  cases hl : c.history.getLast? with
  | none => exact .inl ⟨List.getLast?_eq_none_iff.mp hl, h.fresh (List.getLast?_eq_none_iff.mp hl)⟩
  | some e => exact .inr ⟨e, rfl, h.last e hl⟩

private theorem note_not_blank {request : ClaimTransition} {note : String}
    (h : note ∈ keepNote request.note) : Text.isBlank note = false := by
  have := (Option.filter_eq_some_iff.mp h).2
  simpa using this

/-- An allowed change keeps the account. The entry starts where the history ended, and its target is
the new status. -/
theorem Audited.withChange {c : Claim} (h : c.Audited) (request : ClaimTransition) (now : Instant)
    (hmove : request.status ∈ allowedNext c.status) :
    (c.withChange (c.change request now)).Audited where
  fresh hnil := by simp [Claim.withChange] at hnil
  first e he := by
    obtain ⟨hnil, hnew⟩ | ⟨l, hl, -⟩ := h.standing
    · -- The claim was new, so the entry is the first one.
      simp only [Claim.withChange, hnil, List.nil_append, List.head?_cons,
        Option.mem_some_iff] at he
      subst he
      exact hnew
    · have hne : c.history ≠ [] := by
        rintro hnil
        rw [hnil] at hl
        cases hl
      exact h.first e (by rwa [Claim.withChange, List.head?_append_of_ne_nil _ hne] at he)
  linked := by
    refine h.linked.append (.singleton _) fun e he f hf => ?_
    simp only [List.head?_cons, Option.mem_some_iff] at hf
    subst hf
    exact h.last e he
  last e he := by
    simp only [Claim.withChange, List.getLast?_append, List.getLast?_singleton, Option.some_or,
      Option.mem_some_iff] at he
    subst he
    rfl
  edges e he := by
    obtain he | he := List.mem_append.mp he
    · exact h.edges e he
    · obtain rfl := List.mem_singleton.mp he
      exact hmove
  notes e he note hn := by
    obtain he | he := List.mem_append.mp he
    · exact h.notes e he note hn
    · obtain rfl := List.mem_singleton.mp he
      exact note_not_blank hn
  counted := by
    simp [Claim.withChange, h.counted]
  shown := rfl

end Claim

namespace Stored

/-- The record, if it is a claim, is accounted for by its history. -/
def Audited : Stored → Prop
  | file _ => True
  | claim c => c.Audited

private theorem audited_of_opens {config : EvaluationConfig Float} {c : Call} {record : Stored}
    (h : c.Opens config record) : record.Audited := by
  cases h with
  | file a _ => trivial
  | claim request n _ => exact Claim.Audited.ofRequest _ request

private theorem audited_of_amends {config : EvaluationConfig Float} {c : Call} {a : Amendment}
    (ha : Amends config c a) (h : a.source.Audited) : a.changed.Audited := by
  cases ha with
  | evaluation _ _ _ _ => trivial
  | decision _ _ _ _ _ _ _ _ _ => trivial
  | move claimId request now c hmove => exact Claim.Audited.withChange h request now hmove

end Stored

/-- The history of every claim of a desk that is reached accounts for it. -/
theorem Desk.Reached.audited {config : EvaluationConfig Float} {desk : Desk}
    (h : desk.Reached config) {claimId : ClaimId} {c : Claim}
    (hc : desk.claims.find? claimId = some c) : c.Audited :=
  h.record (P := Stored.Audited) (fun _ _ => Stored.audited_of_opens)
    (fun _ _ => Stored.audited_of_amends) (Desk.stored?_claim_eq_some.mpr hc)

namespace Session

variable {config : EvaluationConfig Float}

/-- A claim of a session stays there and only gets more history. -/
theorem claims_extended (visits more : List Visit) {claimId : ClaimId} {c : Claim}
    (h : (run config visits).desk.stored? (.claim claimId) = some (.claim c)) :
    ∃ later, (run config (visits ++ more)).desk.stored? (.claim claimId) = some (.claim later) ∧
      c.Extends later := by
  refine induction_from (P := fun desk => ∃ later,
    desk.stored? (.claim claimId) = some (.claim later) ∧ c.Extends later) visits ?_ ?_ more
  · exact ⟨c, h, .refl c⟩
  · rintro desk v reply desk' hk ⟨later, hl, hext⟩ he
    obtain hl | ⟨a, ha, hs, hl⟩ := he.found_before hl
    · exact ⟨later, hl, hext⟩
    · obtain ⟨request, now, -, hc⟩ := ha.of_claim hs
      exact ⟨_, hc ▸ hl, hext.withChange _⟩

/-- **Audit chain.** Every claim found after some visits is stored under its own id, its history
accounts for its status and its revision, and whatever is served next only adds to that history. -/
theorem audit_chain (visits more : List Visit) {claimId : ClaimId} {c : Claim}
    (h : (run config visits).desk.claims.find? claimId = some c) :
    c.claimId = claimId ∧ c.Audited ∧
      ∃ later, (run config (visits ++ more)).desk.claims.find? claimId = some later ∧
        c.Extends later := by
  have hs := Desk.stored?_claim_eq_some.mpr h
  refine ⟨RecordId.claim.inj (keyed visits _ _ hs), Desk.Reached.audited (.served visits) h, ?_⟩
  obtain ⟨later, hl, hext⟩ := claims_extended visits more hs
  exact ⟨later, Desk.stored?_claim_eq_some.mp hl, hext⟩

/-- A claim is opened and reviewed, and later denied. -/
theorem audit_chain_of_review :
    let review : List Visit :=
      [⟨.openClaim ⟨"pol-1", "hail"⟩, .ok ()⟩,
       ⟨.transition "clm-000001" ⟨.underReview, some "photos received"⟩ ⟨60, 0⟩, .ok ()⟩]
    let denial : List Visit := [⟨.transition "clm-000001" ⟨.denied, none⟩ ⟨120, 0⟩, .ok ()⟩]
    ∃ c, (run .standard review).desk.claims.find? "clm-000001" = some c ∧ c.revision = 1 ∧
      c.Audited ∧
      ∃ later, (run .standard (review ++ denial)).desk.claims.find? "clm-000001" = some later ∧
        c.Extends later := by
  refine ⟨⟨"clm-000001", "pol-1", "hail", .underReview,
    [⟨.new, .underReview, some "photos received", ⟨60, 0⟩⟩], 1⟩, ?_, rfl, ?_⟩
  · decide +kernel
  · exact (audit_chain _ _ (by decide +kernel)).2

end Session

end

/-! ## Payments of claims

The statuses that a claim has held, NEW first, are a walk in the status graph (`Claim.path`,
`Claim.Audited.isChain_path`). So a status with one way into it names the status before it
(`Claim.Audited.only_before`), and a status with one way out of it names the status after it
(`Claim.Audited.only_after`).

- **Approval** (`Claim.PaidAfresh.approved`): a claim is paid right after a review, an approval and
  the start of the payment.
- **Once for each approval** (`Claim.PaidAfresh.reopened`): a claim that was paid or denied is
  closed, reopened and reviewed before it is paid again.

Both hold of every claim of a desk that is reached (`Desk.Reached.paid_afresh`). -/

section

open WorkflowStatus (allowedNext)

namespace Claim

/-- The statuses that the entries of the history lead to. -/
def targets (c : Claim) : List ClaimStatus := c.history.map (·.target)

/-- The statuses that a claim has held, one after the other. It is one longer than the history. -/
def path (c : Claim) : List ClaimStatus := .new :: c.targets

/-- No claim is paid without an approval of its own. -/
structure PaidAfresh (c : Claim) : Prop where
  /-- A payment comes right after a review, the approval and the start of the payment. -/
  approved : ∀ k, c.targets[k]? = some .paid → 3 ≤ k ∧ c.targets[k - 3]? = some .underReview ∧
    c.targets[k - 2]? = some .approved ∧ c.targets[k - 1]? = some .inPayment
  /-- Before it is paid again a claim is closed, reopened, reviewed and approved again; and so is
  a claim that was denied. -/
  reopened : ∀ j k, j < k → c.targets[j]? = some .paid ∨ c.targets[j]? = some .denied →
    c.targets[k]? = some .paid → c.targets[j + 1]? = some .closed ∧
      c.targets[j + 2]? = some .reopened ∧ c.targets[j + 3]? = some .underReview ∧ j + 6 ≤ k

/-! ### The walk of a claim -/

@[simp] theorem path_succ (c : Claim) (k : Nat) : c.path[k + 1]? = c.targets[k]? := rfl

/-- Changes that follow each other lead along the graph. The first of them starts at `s`. -/
private theorem isChain_targets {s : ClaimStatus} {history : List StatusChange}
    (hfirst : ∀ e ∈ history.head?, e.source = s)
    (hlinked : history.IsChain fun e f => e.target = f.source)
    (hedges : ∀ e ∈ history, e.target ∈ allowedNext e.source) :
    (s :: history.map (·.target)).IsChain fun s t => t ∈ allowedNext s := by
  induction history generalizing s with
  | nil => exact .singleton s
  | cons e rest ih =>
    obtain rfl := hfirst e rfl
    obtain ⟨hnext, hrest⟩ := List.isChain_cons.mp hlinked
    exact .cons_cons (hedges e List.mem_cons_self)
      (ih (fun f hf => (hnext f hf).symm) hrest fun f hf => hedges f (List.mem_cons_of_mem e hf))

namespace Audited

variable {c : Claim} {k : Nat} {s t : ClaimStatus}

theorem isChain_path (h : c.Audited) : c.path.IsChain fun s t => t ∈ allowedNext s :=
  isChain_targets h.first h.linked h.edges

/-- Two statuses that were held one after the other. -/
theorem step (h : c.Audited) (hs : c.path[k]? = some s) (ht : c.path[k + 1]? = some t) :
    t ∈ allowedNext s := by
  obtain ⟨hk, rfl⟩ := List.getElem?_eq_some_iff.mp hs
  obtain ⟨hk', rfl⟩ := List.getElem?_eq_some_iff.mp ht
  exact List.isChain_iff_getElem.mp h.isChain_path k hk'

/-- A status with one way into it was held right after the status that the way comes from. -/
theorem only_before (h : c.Audited) (ht : c.path[k]? = some t) (hnew : t ≠ .new)
    (honly : ∀ s', t ∈ allowedNext s' → s' = s) : ∃ j, k = j + 1 ∧ c.path[j]? = some s := by
  cases k with
  | zero => exact absurd (Option.some.inj ht).symm hnew
  | succ j =>
    have hj : j < c.path.length := Nat.lt_of_succ_lt (List.getElem?_eq_some_iff.mp ht).1
    have hs := List.getElem?_eq_getElem hj
    exact ⟨j, rfl, by rw [hs, honly _ (h.step hs ht)]⟩

/-- A status with one way out of it was left, if it was left, for the status that the way goes
to. -/
theorem only_after (h : c.Audited) (hs : c.path[k]? = some s) (honly : allowedNext s = [t])
    {j : Nat} (hlater : k < j) (hj : j < c.path.length) : c.path[k + 1]? = some t := by
  have ht := List.getElem?_eq_getElem (l := c.path) (i := k + 1) (by omega)
  have hmem := h.step hs ht
  rw [honly, List.mem_singleton] at hmem
  rw [ht, hmem]

/-! ### Payments -/

/-- Before a payment there are its start, the approval and the review, and a status before these.
Each of the three has one way into it. -/
private theorem before_paid (h : c.Audited) (hk : c.path[k]? = some .paid) :
    ∃ j, k = j + 4 ∧ c.path[j + 1]? = some .underReview ∧ c.path[j + 2]? = some .approved ∧
      c.path[j + 3]? = some .inPayment := by
  obtain ⟨k₁, rfl, hstart⟩ :=
    h.only_before (s := .inPayment) hk (by decide) fun s => by cases s <;> decide
  obtain ⟨k₂, rfl, happroved⟩ :=
    h.only_before (s := .approved) hstart (by decide) fun s => by cases s <;> decide
  obtain ⟨k₃, rfl, hreview⟩ :=
    h.only_before (s := .underReview) happroved (by decide) fun s => by cases s <;> decide
  cases k₃ with
  | zero => cases hreview
  | succ j => exact ⟨j, rfl, hreview, happroved, hstart⟩

/-- After a payment or a denial the claim is closed, reopened and reviewed, as far as it goes on. -/
private theorem after_settled (h : c.Audited)
    (hk : c.path[k]? = some .paid ∨ c.path[k]? = some .denied) {j : Nat} (hlater : k < j)
    (hj : c.path[j]? = some .paid) :
    c.path[k + 1]? = some .closed ∧ c.path[k + 2]? = some .reopened ∧
      c.path[k + 3]? = some .underReview ∧ k + 3 < j := by
  have hlen := (List.getElem?_eq_some_iff.mp hj).1
  have before_later {i : Nat} {s : ClaimStatus} (hi : c.path[i]? = some s) (hne : s ≠ .paid)
      (hij : i ≤ j) : i < j := by
    refine Nat.lt_of_le_of_ne hij ?_
    rintro rfl
    exact hne (Option.some.inj (hi.symm.trans hj))
  have hclosed : c.path[k + 1]? = some .closed := by
    obtain hk | hk := hk
    · exact h.only_after hk rfl hlater hlen
    · exact h.only_after hk rfl hlater hlen
  have hlater₁ := before_later hclosed (by decide) hlater
  have hreopened := h.only_after hclosed rfl hlater₁ hlen
  have hlater₂ := before_later hreopened (by decide) hlater₁
  have hreview := h.only_after hreopened rfl hlater₂ hlen
  exact ⟨hclosed, hreopened, hreview, before_later hreview (by decide) hlater₂⟩

/-- The statuses before a payment and those after a settlement are forced by the graph, so a second
payment finds six statuses between. -/
theorem paidAfresh (h : c.Audited) : c.PaidAfresh where
  approved k hk := by
    obtain ⟨j, hkj, hreview, happroved, hstart⟩ := h.before_paid (k := k + 1) hk
    obtain rfl : k = j + 3 := by omega
    exact ⟨by omega, hreview, happroved, hstart⟩
  reopened j k hjk hj hk := by
    obtain ⟨hclosed, hreopened, hreview, hlt⟩ :=
      h.after_settled (k := j + 1) (j := k + 1) hj (by omega) hk
    refine ⟨hclosed, hreopened, hreview, ?_⟩
    obtain ⟨i, hki, -, happroved, hstart⟩ := h.before_paid (k := k + 1) hk
    -- The review after the reopening is neither the approval nor the start of the payment.
    have hfirst : j + 4 ≠ i + 2 := by
      intro heq
      rw [← heq] at happroved
      cases hreview.symm.trans happroved
    have hsecond : j + 4 ≠ i + 3 := by
      intro heq
      rw [← heq] at hstart
      cases hreview.symm.trans hstart
    omega

end Audited

end Claim

/-- **Payments.** No claim of a desk that is reached is paid without an approval of its own. -/
theorem Desk.Reached.paid_afresh {config : EvaluationConfig Float} {desk : Desk}
    (h : desk.Reached config) {claimId : ClaimId} {c : Claim}
    (hc : desk.claims.find? claimId = some c) : c.PaidAfresh :=
  (h.audited hc).paidAfresh

/-- A claim is denied, reopened and then paid. -/
theorem paid_afresh_of_reopening :
    let move (status : ClaimStatus) : Visit :=
      ⟨.transition "clm-000001" ⟨status, none⟩ ⟨60, 0⟩, .ok ()⟩
    let visits : List Visit := ⟨.openClaim ⟨"pol-1", "hail"⟩, .ok ()⟩ ::
      [.denied, .closed, .reopened, .underReview, .approved, .inPayment, .paid].map move
    ∃ c, (Session.run .standard visits).desk.claims.find? "clm-000001" = some c ∧
      c.targets[0]? = some .denied ∧ c.targets[6]? = some .paid ∧ c.PaidAfresh := by
  intro move visits
  have hfound : ((Session.run .standard visits).desk.claims.find? "clm-000001").map
      Claim.targets =
        some [.denied, .closed, .reopened, .underReview, .approved, .inPayment, .paid] := by
    decide +kernel
  obtain ⟨c, hc, htargets⟩ := Option.map_eq_some_iff.mp hfound
  refine ⟨c, hc, by rw [htargets]; rfl, by rw [htargets]; rfl, ?_⟩
  exact Desk.Reached.paid_afresh (.served visits) hc

end

end PolicyDesk
