import PolicyDesk.Desk
import PolicyDesk.Proofs.Store

/-!
# The records of a desk

The two shelves of a desk seen as one store: a `Stored` record is a file or a claim, and a
`RecordId` names it.

- **Lookup** (`Desk.stored?`): what the desk has under an id.
- **Writes** (`Desk.insert`, `Desk.update`): the operation of the shelf that the record belongs on.
  An accepted write changes what is found under the id of the record and nothing else
  (`stored?_of_insert`, `stored?_of_update`).
-/

namespace PolicyDesk

theorem map_eq_ok {ε α β : Type} {f : α → β} {x : Except ε α} {b : β} :
    x.map f = .ok b ↔ ∃ a, x = .ok a ∧ f a = b := by
  cases x <;> simp [Except.map]

theorem toOption_eq_some {ε α : Type} {x : Except ε α} {a : α} :
    x.toOption = some a ↔ x = .ok a := by
  cases x <;> simp [Except.toOption]

theorem map_eq_error {ε α β : Type} {f : α → β} {x : Except ε α} {e : ε} :
    x.map f = .error e ↔ x = .error e := by
  cases x <;> simp [Except.map]

/-- What names a record of the desk. A file and a claim may have the same text for an id and are
still two records. -/
inductive RecordId
  | file (policyId : PolicyId)
  | claim (claimId : ClaimId)
  deriving DecidableEq

/-- A record of the desk. Seen so, the two shelves of the desk obey one set of laws. -/
inductive Stored
  | file (file : UnderwritingFile)
  | claim (claim : Claim)
  deriving DecidableEq

@[simp] theorem key_file (f : UnderwritingFile) : Kept.key f = f.policyId := rfl

@[simp] theorem key_claim (c : Claim) : Kept.key c = c.claimId := rfl

namespace Stored

def id : Stored → RecordId
  | file f => .file f.policyId
  | claim c => .claim c.claimId

def revision : Stored → UInt64
  | file f => f.revision
  | claim c => c.revision

@[simp] theorem id_file (f : UnderwritingFile) : (file f).id = .file f.policyId := rfl

@[simp] theorem id_claim (c : Claim) : (claim c).id = .claim c.claimId := rfl

@[simp] theorem revision_file (f : UnderwritingFile) : (file f).revision = f.revision := rfl

@[simp] theorem revision_claim (c : Claim) : (claim c).revision = c.revision := rfl

end Stored

namespace Desk

open DeskM (putFiles putClaims)

/-- What the desk has under an id. Nothing else of the desk is seen through it: not the referrals,
nor the number of the next claim. -/
def stored? (desk : Desk) : RecordId → Option Stored
  | .file policyId => (desk.files.find? policyId).map .file
  | .claim claimId => (desk.claims.find? claimId).map .claim

/-- Every record is stored under its own id. It holds of the desk at the start and is kept by every
write. -/
def Keyed (desk : Desk) : Prop := ∀ id record, desk.stored? id = some record → record.id = id

/-- Stores a new record. The record belongs on one of the shelves, and the other stays as it is. -/
def insert (desk : Desk) : Stored → Except StoreError Desk
  | .file f => (desk.files.insert f).map fun files => putFiles files desk
  | .claim c => (desk.claims.insert c).map fun claims => putClaims claims desk

/-- Replaces a record that is still at the revision expected. An update never puts a record under an
id that is free. -/
def update (desk : Desk) (record : Stored) (expected : UInt64) : Except StoreError Desk :=
  match record with
  | .file f => (desk.files.update f expected).map fun files => putFiles files desk
  | .claim c => (desk.claims.update c expected).map fun claims => putClaims claims desk

@[simp] theorem stored?_empty (id : RecordId) : Desk.empty.stored? id = none := by
  cases id <;> rfl

theorem stored?_congr {desk desk' : Desk} (hf : desk'.files = desk.files)
    (hc : desk'.claims = desk.claims) (id : RecordId) : desk'.stored? id = desk.stored? id := by
  cases id <;> simp [stored?, hf, hc]

@[simp] theorem stored?_file_eq_some {desk : Desk} {policyId : PolicyId} {f : UnderwritingFile} :
    desk.stored? (.file policyId) = some (.file f) ↔ desk.files.find? policyId = some f := by
  simp [stored?]

@[simp] theorem stored?_claim_eq_some {desk : Desk} {claimId : ClaimId} {c : Claim} :
    desk.stored? (.claim claimId) = some (.claim c) ↔ desk.claims.find? claimId = some c := by
  simp [stored?]

/-- A shelf of files that has `f` put on it, seen from the desk. -/
private theorem stored?_putFiles {desk : Desk} {files : Shelf UnderwritingFile}
    {f : UnderwritingFile}
    (h : ∀ k, files.find? k = if k = f.policyId then some f else desk.files.find? k)
    (id : RecordId) : (putFiles files desk).stored? id =
      if id = (Stored.file f).id then some (.file f) else desk.stored? id := by
  cases id with
  | file policyId =>
    by_cases hk : policyId = f.policyId <;> simp [stored?, putFiles, h, hk]
  | claim claimId => simp [stored?, putFiles]

/-- A shelf of claims that has `c` put on it, seen from the desk. -/
private theorem stored?_putClaims {desk : Desk} {claims : Shelf Claim} {c : Claim}
    (h : ∀ k, claims.find? k = if k = c.claimId then some c else desk.claims.find? k)
    (id : RecordId) : (putClaims claims desk).stored? id =
      if id = (Stored.claim c).id then some (.claim c) else desk.stored? id := by
  cases id with
  | file policyId => simp [stored?, putClaims]
  | claim claimId =>
    by_cases hk : claimId = c.claimId <;> simp [stored?, putClaims, h, hk]

/-- An accepted insertion puts the record under its id and leaves every other id as it was. -/
theorem stored?_of_insert {desk desk' : Desk} {record : Stored}
    (h : desk.insert record = .ok desk') (id : RecordId) :
    desk'.stored? id = if id = record.id then some record else desk.stored? id := by
  cases record with
  | file f =>
    obtain ⟨files, hf, rfl⟩ := map_eq_ok.mp h
    exact stored?_putFiles (Shelf.find?_of_insert hf) id
  | claim c =>
    obtain ⟨claims, hc, rfl⟩ := map_eq_ok.mp h
    exact stored?_putClaims (Shelf.find?_of_insert hc) id

/-- An accepted update, too, is seen under the id of the record alone. -/
theorem stored?_of_update {desk desk' : Desk} {record : Stored} {expected : UInt64}
    (h : desk.update record expected = .ok desk') (id : RecordId) :
    desk'.stored? id = if id = record.id then some record else desk.stored? id := by
  cases record with
  | file f =>
    obtain ⟨files, hf, rfl⟩ := map_eq_ok.mp h
    exact stored?_putFiles (Shelf.find?_of_update hf) id
  | claim c =>
    obtain ⟨claims, hc, rfl⟩ := map_eq_ok.mp h
    exact stored?_putClaims (Shelf.find?_of_update hc) id

theorem find?_of_insert_file {desk desk' : Desk} {f : UnderwritingFile}
    (h : desk.insert (.file f) = .ok desk') (k : PolicyId) :
    desk'.files.find? k = if k = f.policyId then some f else desk.files.find? k := by
  obtain ⟨files, hf, rfl⟩ := map_eq_ok.mp h
  exact Shelf.find?_of_insert hf k

theorem find?_of_update_file {desk desk' : Desk} {f : UnderwritingFile} {expected : UInt64}
    (h : desk.update (.file f) expected = .ok desk') (k : PolicyId) :
    desk'.files.find? k = if k = f.policyId then some f else desk.files.find? k := by
  obtain ⟨files, hf, rfl⟩ := map_eq_ok.mp h
  exact Shelf.find?_of_update hf k

theorem files_of_insert_claim {desk desk' : Desk} {c : Claim}
    (h : desk.insert (.claim c) = .ok desk') : desk'.files = desk.files := by
  obtain ⟨claims, -, rfl⟩ := map_eq_ok.mp h
  rfl

theorem files_of_update_claim {desk desk' : Desk} {c : Claim} {expected : UInt64}
    (h : desk.update (.claim c) expected = .ok desk') : desk'.files = desk.files := by
  obtain ⟨claims, -, rfl⟩ := map_eq_ok.mp h
  rfl

theorem nextClaim_of_insert {desk desk' : Desk} {record : Stored}
    (h : desk.insert record = .ok desk') : desk'.nextClaim = desk.nextClaim := by
  cases record <;>
  · obtain ⟨_, -, rfl⟩ := map_eq_ok.mp h
    rfl

theorem nextClaim_of_update {desk desk' : Desk} {record : Stored} {expected : UInt64}
    (h : desk.update record expected = .ok desk') : desk'.nextClaim = desk.nextClaim := by
  cases record <;>
  · obtain ⟨_, -, rfl⟩ := map_eq_ok.mp h
    rfl

theorem referrals_of_insert {desk desk' : Desk} {record : Stored}
    (h : desk.insert record = .ok desk') : desk'.referrals = desk.referrals := by
  cases record <;>
  · obtain ⟨_, -, rfl⟩ := map_eq_ok.mp h
    rfl

theorem referrals_of_update {desk desk' : Desk} {record : Stored} {expected : UInt64}
    (h : desk.update record expected = .ok desk') : desk'.referrals = desk.referrals := by
  cases record <;>
  · obtain ⟨_, -, rfl⟩ := map_eq_ok.mp h
    rfl

/-- A record that was inserted found its id free. So nothing that was stored is lost by it. -/
theorem free_of_insert {desk desk' : Desk} {record : Stored} (h : desk.insert record = .ok desk') :
    desk.stored? record.id = none := by
  cases record with
  | file f =>
    obtain ⟨files, hf, -⟩ := map_eq_ok.mp h
    simpa [stored?] using (Shelf.insert_eq_ok.mp hf).1
  | claim c =>
    obtain ⟨claims, hc, -⟩ := map_eq_ok.mp h
    simpa [stored?] using (Shelf.insert_eq_ok.mp hc).1

/-- A record is inserted under an id that is free. -/
theorem insert_of_free {desk : Desk} {record : Stored} (h : desk.stored? record.id = none) :
    ∃ desk', desk.insert record = .ok desk' := by
  cases record with
  | file f =>
    have hfree : desk.files.find? f.policyId = none := by simpa [stored?] using h
    exact ⟨_, map_eq_ok.mpr ⟨_, Shelf.insert_eq_ok.mpr ⟨hfree, rfl⟩, rfl⟩⟩
  | claim c =>
    have hfree : desk.claims.find? c.claimId = none := by simpa [stored?] using h
    exact ⟨_, map_eq_ok.mpr ⟨_, Shelf.insert_eq_ok.mpr ⟨hfree, rfl⟩, rfl⟩⟩

/-- An insertion under an id that is taken is refused. It does not look at the record that is there.
-/
theorem insert_of_taken {desk : Desk} {record : Stored} (h : (desk.stored? record.id).isSome) :
    desk.insert record = .error .conflict := by
  cases record with
  | file f =>
    have htaken : (desk.files.find? f.policyId).isSome := by simpa [stored?] using h
    exact map_eq_error.mpr (Shelf.insert_eq_error.mpr ⟨htaken, rfl⟩)
  | claim c =>
    have htaken : (desk.claims.find? c.claimId).isSome := by simpa [stored?] using h
    exact map_eq_error.mpr (Shelf.insert_eq_error.mpr ⟨htaken, rfl⟩)

/-- An insertion that is refused finds its id taken. -/
theorem taken_of_insert_error {desk : Desk} {record : Stored} {e : StoreError}
    (h : desk.insert record = .error e) : (desk.stored? record.id).isSome := by
  cases record with
  | file f => simpa [stored?] using (Shelf.insert_eq_error.mp (map_eq_error.mp h)).1
  | claim c => simpa [stored?] using (Shelf.insert_eq_error.mp (map_eq_error.mp h)).1

/-- An update finds the record at the revision expected. What is compared is the stored record, and
not the one that is brought. -/
theorem current_of_update {desk desk' : Desk} {record : Stored} {expected : UInt64}
    (h : desk.update record expected = .ok desk') :
    ∃ stored, desk.stored? record.id = some stored ∧ stored.revision = expected := by
  cases record with
  | file f =>
    obtain ⟨files, hf, -⟩ := map_eq_ok.mp h
    obtain ⟨stored, hs, hr⟩ := (Shelf.update_eq_ok.mp hf).1
    exact ⟨.file stored, by simpa using hs, hr⟩
  | claim c =>
    obtain ⟨claims, hc, -⟩ := map_eq_ok.mp h
    obtain ⟨stored, hs, hr⟩ := (Shelf.update_eq_ok.mp hc).1
    exact ⟨.claim stored, by simpa using hs, hr⟩

/-- An update of a record at the revision expected is accepted. -/
theorem update_of_current {desk : Desk} {record stored : Stored} {expected : UInt64}
    (h : desk.stored? record.id = some stored) (hr : stored.revision = expected) :
    ∃ desk', desk.update record expected = .ok desk' := by
  cases record with
  | file f =>
    obtain ⟨g, hg, rfl⟩ := Option.map_eq_some_iff.mp h
    exact ⟨_, map_eq_ok.mpr ⟨_, Shelf.update_eq_ok.mpr ⟨⟨g, hg, hr⟩, rfl⟩, rfl⟩⟩
  | claim c =>
    obtain ⟨d, hd, rfl⟩ := Option.map_eq_some_iff.mp h
    exact ⟨_, map_eq_ok.mpr ⟨_, Shelf.update_eq_ok.mpr ⟨⟨d, hd, hr⟩, rfl⟩, rfl⟩⟩

/-- A stale update does not find the revision expected. -/
theorem moved_of_stale {desk : Desk} {record : Stored} {expected : UInt64}
    (h : desk.update record expected = .error .stale) :
    (desk.stored? record.id).map (·.revision) ≠ some expected := by
  intro hrev
  obtain ⟨stored, hs, hr⟩ := Option.map_eq_some_iff.mp hrev
  obtain ⟨desk', hu⟩ := update_of_current hs hr
  rw [hu] at h
  cases h

/-- An update of a record that is not there is refused. -/
theorem update_of_missing {desk : Desk} {record : Stored} {expected : UInt64}
    (h : desk.stored? record.id = none) : desk.update record expected = .error .notFound := by
  cases record with
  | file f => exact map_eq_error.mpr (Shelf.update_missing (by simpa [stored?] using h))
  | claim c => exact map_eq_error.mpr (Shelf.update_missing (by simpa [stored?] using h))

/-- An update of a record at another revision is stale. Whether it moved forward or back makes no
difference. -/
theorem update_of_moved {desk : Desk} {record stored : Stored} {expected : UInt64}
    (h : desk.stored? record.id = some stored) (hr : stored.revision ≠ expected) :
    desk.update record expected = .error .stale := by
  cases record with
  | file f =>
    obtain ⟨g, hg, rfl⟩ := Option.map_eq_some_iff.mp h
    exact map_eq_error.mpr (Shelf.update_stale hg hr)
  | claim c =>
    obtain ⟨d, hd, rfl⟩ := Option.map_eq_some_iff.mp h
    exact map_eq_error.mpr (Shelf.update_stale hd hr)

end Desk

end PolicyDesk
