import PolicyDesk.Assessment
import PolicyDesk.Store
import PolicyDesk.Workflow

/-!
# Claims

A claim holds its status and the full history of its status changes.

- `Claim.ofRequest` is a claim as it is first reported; `claimNumber` names the claims in order.
- `Claim.moved` is the claim after an allowed status change, with one entry more in its history.
-/

namespace PolicyDesk

/-- What names a claim. -/
abbrev ClaimId := String

/-- One accepted status change. Its target is the status of the claim until the next one. -/
structure StatusChange where
  source : ClaimStatus
  target : ClaimStatus
  note : Option String
  changedAt : Instant
  deriving DecidableEq, Repr

/-- The history and the revision grow together, by one for each status change. -/
structure Claim where
  claimId : ClaimId
  policyId : PolicyId
  description : String
  status : ClaimStatus
  /-- The status changes, the latest last. -/
  history : List StatusChange
  revision : UInt64
  deriving DecidableEq, Repr

/-- A first report of a loss. The policy is checked for being there at all, the description is taken
as it comes. -/
structure OpenClaim where
  policyId : PolicyId
  description : String
  deriving DecidableEq, Repr

/-- A proposed status change. The status is a code already read; the note is free text. -/
structure ClaimTransition where
  status : ClaimStatus
  note : Option String
  deriving DecidableEq, Repr

/-- What a caller is shown of a claim. -/
structure ClaimView where
  claimId : ClaimId
  policyId : PolicyId
  status : ClaimStatus
  allowedNext : List String
  /-- How many status changes there have been. -/
  changes : Nat
  deriving DecidableEq, Repr

/-- A failure of an operation on claims. A failure of the store also stands for a claim that is not
there. -/
inductive ClaimError
  | missingPolicy
  | transition (refusal : TransitionError)
  | store (failure : StoreError)
  deriving DecidableEq, Repr

def ClaimError.message : ClaimError → String
  | missingPolicy => "claim must reference a policy"
  | transition refusal => refusal.message
  | store failure => failure.message

/-- The name of the claim of a number: six digits or more. Numbers of more than six digits are not
cut, so no two numbers share a name. -/
def claimNumber (n : UInt64) : ClaimId := "clm-" ++ Decimal.padded 6 n.toNat

namespace Claim

instance : Kept Claim where
  key c := c.claimId
  revision c := c.revision

/-- A claim as it is first reported. The policy id is kept to the letter, unlike that of an
assessment, which is trimmed. -/
def ofRequest (claimId : ClaimId) (request : OpenClaim) : Claim where
  claimId := claimId
  policyId := request.policyId
  description := Text.trim request.description
  status := .new
  history := []
  revision := 0

/-- What is shown of a claim; the history itself is not, only its length. -/
def view (c : Claim) : ClaimView where
  claimId := c.claimId
  policyId := c.policyId
  status := c.status
  allowedNext := allowedCodes c.status
  changes := c.history.length

/-- A note is kept as it is given, unless it is blank. -/
def keepNote (note : Option String) : Option String := note.filter fun s => !Text.isBlank s

/-- The claim after an allowed status change, one revision on. A refused change gives no claim at
all, so nothing of it can be stored. -/
def moved (c : Claim) (request : ClaimTransition) (now : Instant) :
    Except TransitionError Claim := do
  checkTransition c.status request.status
  return { c with
    status := request.status
    history := c.history ++ [⟨c.status, request.status, keepNote request.note, now⟩]
    revision := c.revision + 1 }

end Claim

end PolicyDesk
