import PolicyDesk.Assessment

/-!
# Stores and the carrier

What the operations of the desk rely on and do not do themselves: keeping records, and asking the
carrier.
-/

namespace PolicyDesk

/-! ## Stores of records

A record is kept under its key and carries a revision (`Kept`). A `Shelf` keeps records in memory.

- `insert` refuses a key that is taken.
- `update` replaces a record only while the stored one is still at the revision expected: of the
  writers that read one revision, the first wins and the others find it stale. -/

section

/-- A failure of a store. -/
inductive StoreError
  | conflict
  | notFound
  /-- The stored record moved past the revision that was read. -/
  | stale
  | unavailable (reason : String)
  deriving DecidableEq, Repr

def StoreError.message : StoreError → String
  | conflict => "record already exists"
  | notFound => "record not found"
  | stale => "record changed since it was read"
  | unavailable reason => "repository unavailable: " ++ reason

/-- A record that a store can keep. The revision is all that a store looks at besides the key; the
rest of the record is the business of others. -/
class Kept (ρ : Type) where
  key : ρ → String
  revision : ρ → UInt64

open Kept (key revision)

/-- Records under their keys, in the order of insertion. The order is kept so that a reader of all
records has one to go by; nothing else depends on it. -/
structure Shelf (ρ : Type) where
  entries : List (String × ρ)

namespace Shelf

variable {ρ : Type}

def empty : Shelf ρ := ⟨[]⟩

/-- The record under a key. There is at most one, since `insert` refuses a key that is taken. -/
def find? (shelf : Shelf ρ) (k : String) : Option ρ :=
  (shelf.entries.find? fun entry => entry.1 == k).map (·.2)

/-- The records, in the order of insertion. -/
def records (shelf : Shelf ρ) : List ρ := shelf.entries.map (·.2)

/-- Puts a record in the place of the one under its key. The other records keep their places and
their contents. -/
def replace (shelf : Shelf ρ) (k : String) (record : ρ) : Shelf ρ :=
  ⟨shelf.entries.map fun entry => if entry.1 == k then (k, record) else entry⟩

variable [Kept ρ]

/-- Adds a record under a key that is free. Whatever the revision of the record under the key, it is
not touched. -/
def insert (shelf : Shelf ρ) (record : ρ) : Except StoreError (Shelf ρ) :=
  match shelf.find? (key record) with
  | some _ => .error .conflict
  | none => .ok ⟨shelf.entries ++ [(key record, record)]⟩

/-- Replaces a record that is still at the revision expected. The record that replaces it brings its
own revision, so it is the caller who counts. -/
def update (shelf : Shelf ρ) (record : ρ) (expected : UInt64) : Except StoreError (Shelf ρ) :=
  match shelf.find? (key record) with
  | none => .error .notFound
  | some stored =>
    if revision stored = expected then .ok (shelf.replace (key record) record)
    else .error .stale

end Shelf

/-- What a program may ask of a store of records. -/
class RecordStore (ρ : Type) (m : Type → Type) where
  insert : ρ → m (Except StoreError Unit)
  /-- Replaces the stored record while it is at the revision given. -/
  update : ρ → UInt64 → m (Except StoreError Unit)
  fetch : String → m (Except StoreError (Option ρ))

/-- A step that may fail, as a step of a program with failures of its own. The failure is renamed on
the way, so the caller sees which part of the desk it came from. -/
def attempt {m : Type → Type} [Monad m] {ε δ β : Type} (wrap : ε → δ) (step : m (Except ε β)) :
    ExceptT δ m β :=
  ExceptT.mk do
    let result ← step
    return result.mapError wrap

/-- The record under a key, which must be there. An absent record is a failure here, while the store
itself answers with nothing. -/
def fetchExisting {m : Type → Type} [Monad m] {ρ δ : Type} [RecordStore ρ m] (wrap : StoreError → δ)
    (k : String) : ExceptT δ m ρ := do
  let fetched : m (Except StoreError (Option ρ)) := RecordStore.fetch k
  match ← attempt wrap fetched with
  | some record => return record
  | none => throw (wrap .notFound)

end

/-! ## The carrier

High risks may be referred to the carrier. A referral is sent before the file that it is about is
written, and a carrier that fails leaves the file where it was. -/

/-- What the carrier is told of a policy. It copies what the file says at that moment; the carrier
sees no later change. -/
structure Referral where
  policyId : PolicyId
  riskScore : Float
  severity : Severity
  reasons : List String
  deriving DecidableEq

/-- A failure of a referral. Both kinds stop the operation that referred; they differ in their
message only. -/
inductive CarrierError
  | transport (reason : String)
  | rejected (reason : String)
  deriving DecidableEq, Repr

def CarrierError.message : CarrierError → String
  | transport reason => "carrier integration unavailable: " ++ reason
  | rejected reason => "carrier rejected referral: " ++ reason

/-- The way to the carrier. -/
class CarrierGateway (m : Type → Type) where
  refer : Referral → m (Except CarrierError Unit)

end PolicyDesk
