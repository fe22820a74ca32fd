import PolicyDesk.Claims
import PolicyDesk.Evaluation
import PolicyDesk.Underwriting

/-!
# The operations and the desk

The operations on files and claims, and the desk in memory that they run on.
-/

namespace PolicyDesk

/-! ## Operations on underwriting files

The operations are programs over any store of files and any carrier.

- `submit` and `score` open a file for a new assessment; input that breaks a rule is never stored.
- `evaluate` and `decide` read a file, check it and make a draft, refer it to the carrier if the
  draft says so, and write it while it is still at the revision read (`commit`).
- `get` and `queue` only read. -/

/-- A store that can list the files that await an underwriter. Which files these are and in what
order is for the store to say (`pendingFiles`). -/
class FileQueue (m : Type → Type) where
  pending : (limit : Nat) → m (Except StoreError (List UnderwritingFile))

namespace Underwriting

variable {m : Type → Type} [Monad m] [RecordStore UnderwritingFile m]

/-- A check of what is at hand, as a step. Its failure stops the operation before anything is
stored. -/
def require {ε β : Type} (wrap : ε → UnderwritingError) (result : Except ε β) :
    ExceptT UnderwritingError m β :=
  attempt wrap (pure result)

/-- Opens a file for an assessment. A policy has one file at most, so a second one is refused by the
store. -/
def openFile (a : Assessment Float) : ExceptT UnderwritingError m UnderwritingFile := do
  let file := UnderwritingFile.ofAssessment a
  attempt .store (RecordStore.insert file)
  return file

/-- Checks and stores a submitted assessment. The check comes first: a refused submission never
reaches the store. -/
def submit (input : AssessmentInput Float) (now : Instant) :
    ExceptT UnderwritingError m UnderwritingFile := do
  openFile (← require .violations (input.build now))

/-- Scores a request with the configured weights and stores the assessment. From there on it is a
submission like any other. -/
def score (config : EvaluationConfig Float) (request : ScoreRequest Float) (now : Instant) :
    ExceptT UnderwritingError m UnderwritingFile := do
  openFile (← require .violations (config.assess request now))

/-- The file of a policy. A policy without one is a failure of the store. -/
def get (policyId : PolicyId) : ExceptT UnderwritingError m UnderwritingFile :=
  fetchExisting .store policyId

/-- The files that await an underwriter. -/
def queue [FileQueue m] (limit : Nat) : ExceptT UnderwritingError m (List UnderwritingFile) :=
  attempt .store (FileQueue.pending limit)

variable [CarrierGateway m]

/-- Tells the carrier, if it is to be told. A refusal of the carrier is the failure of the whole
operation. -/
def refer (referral : Option Referral) : ExceptT UnderwritingError m Unit :=
  match referral with
  | some r => attempt .carrier (CarrierGateway.refer r)
  | none => pure ()

/-- Carries a draft out: the referral first, so that a carrier that fails leaves the file as it was.
The update can still find the file changed; the carrier has then been told all the same. -/
def commit {β : Type} (draft : Draft β) : ExceptT UnderwritingError m β := do
  refer draft.referral
  attempt .store (RecordStore.update draft.file draft.expected)
  return draft.answer

/-- Evaluates a file and moves it to the recommended status. The file is read once, and all that is
decided is decided on what was read. -/
def evaluate (config : EvaluationConfig Float) (policyId : PolicyId) :
    ExceptT UnderwritingError m (EvaluationOutcome Float) := do
  let file ← get policyId
  commit (← require id (file.evaluated config))

/-- Applies a proposed decision to a file. The proposal is checked before the file is read, so a bad
one is refused for any policy id. -/
def decide (policyId : PolicyId) (proposal : ProposedDecision) (decidedBy : String)
    (now : Instant) : ExceptT UnderwritingError m UnderwritingFile := do
  let decision ← require .violations (Decision.ofProposal proposal decidedBy now)
  let file ← get policyId
  commit (← require id (file.decided policyId decision))

end Underwriting

/-! ## Operations on claims

The operations are programs over any store of claims and any supply of claim numbers.

- `openClaim` numbers and stores a first report; a report without a policy takes no number.
- `transition` reads a claim, checks the move, and writes the claim while it is still at the
  revision read. -/

/-- A supply of claim numbers, each given out once. A number that has been given out is spent,
whatever becomes of the claim. -/
class ClaimNumbers (m : Type → Type) where
  next : m UInt64

namespace Claims

variable {m : Type → Type} [Monad m] [RecordStore Claim m]

/-- Records the first report of a loss. The number is taken before the claim is stored. -/
def openClaim [ClaimNumbers m] (request : OpenClaim) : ExceptT ClaimError m Claim := do
  if Text.isBlank request.policyId then throw .missingPolicy
  let number ← ExceptT.lift ClaimNumbers.next
  let claim := Claim.ofRequest (claimNumber number) request
  attempt .store (RecordStore.insert claim)
  return claim

/-- The claim of an id. A claim that is not there is a failure of the store. -/
def get (claimId : ClaimId) : ExceptT ClaimError m Claim :=
  fetchExisting .store claimId

/-- Moves a claim along its graph. A move that is refused leaves the store as it was. -/
def transition (claimId : ClaimId) (request : ClaimTransition) (now : Instant) :
    ExceptT ClaimError m Claim := do
  let claim ← get claimId
  let changed ← attempt .transition (pure (claim.moved request now))
  attempt .store (RecordStore.update changed claim.revision)
  return changed

end Claims

/-! ## The desk in memory

A `Desk` holds the files, the claims, the referrals that the carrier accepted and the number of the
next claim. `DeskM` runs the operations on it: each store operation is one step that either
succeeds or leaves the desk as it was, and the carrier gives the answer that the run is started
with. -/

/-- All that the operations can change is in it; the time and the answer of the carrier come from
outside. -/
structure Desk where
  files : Shelf UnderwritingFile
  claims : Shelf Claim
  /-- The referrals that the carrier accepted, in order. -/
  referrals : List Referral
  /-- The number of the next claim. -/
  nextClaim : UInt64

/-- A desk at the start: nothing stored, nothing referred, claims numbered from one. -/
def Desk.empty : Desk := ⟨.empty, .empty, [], 1⟩

/-- What the carrier answers to a referral. One answer holds for a whole run, since an operation
refers at most once. -/
abbrev CarrierAnswer := Except CarrierError Unit

/-- Programs over a desk, with the answer of the carrier at hand. Each store operation reads and
writes the desk in one go, as one holder of a lock would. -/
abbrev DeskM := ReaderT CarrierAnswer (StateM Desk)

namespace DeskM

/-- Puts a changed part back into the desk; a failure leaves the desk as it was. So a store that
refuses can be told by its answer alone. -/
def keep {β : Type} (put : β → Desk → Desk) (result : Except StoreError β) :
    DeskM (Except StoreError Unit) := do
  match result with
  | .ok part =>
    modify (put part)
    return .ok ()
  | .error e => return .error e

def putFiles (files : Shelf UnderwritingFile) (desk : Desk) : Desk := { desk with files := files }

def putClaims (claims : Shelf Claim) (desk : Desk) : Desk := { desk with claims := claims }

instance : RecordStore UnderwritingFile DeskM where
  insert file := do keep putFiles ((← get).files.insert file)
  update file expected := do keep putFiles ((← get).files.update file expected)
  fetch policyId := return .ok ((← get).files.find? policyId)

instance : RecordStore Claim DeskM where
  insert claim := do keep putClaims ((← get).claims.insert claim)
  update claim expected := do keep putClaims ((← get).claims.update claim expected)
  fetch claimId := return .ok ((← get).claims.find? claimId)

instance : FileQueue DeskM where
  pending limit := return .ok (pendingFiles limit (← get).files.records)

instance : CarrierGateway DeskM where
  refer referral := do
    match ← read with
    | .ok () =>
      modify fun desk => { desk with referrals := desk.referrals ++ [referral] }
      return .ok ()
    | .error e => return .error e

instance : ClaimNumbers DeskM where
  next := modifyGet fun desk => (desk.nextClaim, { desk with nextClaim := desk.nextClaim + 1 })

end DeskM

end PolicyDesk
