import PolicyDesk.Text

/-!
# Workflows

Policies under review, claims and endorsements each have a status that changes along a graph. There
is one gate for all of the graphs.
-/

namespace PolicyDesk

/-! ## Workflow statuses

A workflow is a finite graph of statuses (`WorkflowStatus`): every status has a code and lists the
statuses that may follow it.

- `parseStatus` reads a code in any case and with blanks around it.
- `checkTransition` is the gate: it lets a move pass exactly when the graph has the edge, and its
  refusal names the statuses that would have been allowed. -/

section

/-- What moves through a workflow. -/
inductive Entity
  | claim
  | underwriting
  | endorsement
  deriving DecidableEq, Repr

namespace Entity

def all : List Entity := [.claim, .underwriting, .endorsement]

def name : Entity → String
  | claim => "claim"
  | underwriting => "underwriting"
  | endorsement => "endorsement"

end Entity

/-- The statuses of a workflow and the moves between them. The two flags `allowedNext` and
`isTerminal` are independent: a terminal status may have a successor. -/
class WorkflowStatus (σ : Type) where
  entity : Entity
  /-- Every status, in the order of declaration. -/
  all : List σ
  /-- The statuses that may follow, in the order in which they are offered. -/
  allowedNext : σ → List σ
  /-- No further work is done on a terminal status, a reopening apart. -/
  isTerminal : σ → Bool
  code : σ → String

open WorkflowStatus (entity all allowedNext isTerminal code)

/-- A text that is no status of an entity. It keeps the text as it came, with its blanks and its
case. -/
structure UnknownStatus where
  entity : Entity
  value : String
  deriving DecidableEq, Repr

def UnknownStatus.message (e : UnknownStatus) : String :=
  "unknown " ++ e.entity.name ++ " status '" ++ e.value ++ "'"

/-- A move that the graph does not have. All of it is codes, so that one type serves every workflow.
-/
structure TransitionError where
  entity : Entity
  /-- The code of the status left. -/
  source : String
  /-- The code of the status proposed. -/
  target : String
  /-- The codes of the statuses that may follow. -/
  allowed : List String
  deriving DecidableEq, Repr

def TransitionError.message (e : TransitionError) : String :=
  e.entity.name ++ " cannot move from " ++ e.source ++ " to " ++ e.target ++ " (allowed: " ++
    (if e.allowed.isEmpty then "none" else ", ".intercalate e.allowed) ++ ")"

variable {σ : Type} [DecidableEq σ] [WorkflowStatus σ]

def allowedCodes (s : σ) : List String := (allowedNext s).map code

/-- Reads the code of a status; a refusal carries the text as it was given. The spelling plays no
part once the status is found. -/
def parseStatus (raw : String) : Except UnknownStatus σ :=
  match Text.ofCode? all code raw with
  | some s => .ok s
  | none => .error ⟨entity σ, raw⟩

/-- The graph has an edge between the two statuses. Staying in place is a move too, and no graph
here has it. -/
def canMove (current proposed : σ) : Bool := decide (proposed ∈ allowedNext current)

/-- Lets a move pass exactly when the graph has it. Every operation that changes a status goes
through it, whatever the entity. -/
def checkTransition (current proposed : σ) : Except TransitionError Unit :=
  if canMove current proposed then .ok ()
  else .error ⟨entity σ, code current, code proposed, allowedCodes current⟩

theorem checkTransition_eq_ok {current proposed : σ} :
    checkTransition current proposed = .ok () ↔ proposed ∈ allowedNext current := by
  simp [checkTransition, canMove]

end

/-! ## Underwriting statuses

The states of a policy's review. APPROVED and DECLINED are final: nothing follows them. -/

inductive UnderwritingStatus
  | pendingReview
  | pendingDocuments
  | inReview
  | autoApproved
  | manualReview
  | conditionallyApproved
  | referredToCarrier
  | approved
  | declined
  deriving DecidableEq, Repr

namespace UnderwritingStatus

def all : List UnderwritingStatus :=
  [.pendingReview, .pendingDocuments, .inReview, .autoApproved, .manualReview,
   .conditionallyApproved, .referredToCarrier, .approved, .declined]

def allowedNext : UnderwritingStatus → List UnderwritingStatus
  | pendingReview =>
    [pendingDocuments, inReview, autoApproved, manualReview, referredToCarrier, declined]
  | pendingDocuments => [pendingReview, inReview, declined]
  | inReview =>
    [pendingDocuments, manualReview, conditionallyApproved, referredToCarrier, approved, declined]
  | autoApproved => [approved, manualReview]
  | manualReview =>
    [pendingDocuments, conditionallyApproved, referredToCarrier, approved, declined]
  | conditionallyApproved => [approved, declined]
  | referredToCarrier => [conditionallyApproved, approved, declined]
  | approved => []
  | declined => []

def isTerminal : UnderwritingStatus → Bool
  | approved => true
  | declined => true
  | _ => false

def code : UnderwritingStatus → String
  | pendingReview => "PENDING_REVIEW"
  | pendingDocuments => "PENDING_DOCUMENTS"
  | inReview => "IN_REVIEW"
  | autoApproved => "AUTO_APPROVED"
  | manualReview => "MANUAL_REVIEW"
  | conditionallyApproved => "CONDITIONALLY_APPROVED"
  | referredToCarrier => "REFERRED_TO_CARRIER"
  | approved => "APPROVED"
  | declined => "DECLINED"

end UnderwritingStatus

instance : WorkflowStatus UnderwritingStatus where
  entity := .underwriting
  all := UnderwritingStatus.all
  allowedNext := UnderwritingStatus.allowedNext
  isTerminal := UnderwritingStatus.isTerminal
  code := UnderwritingStatus.code

/-! ## Claim statuses

The states of a claim. CLOSED is terminal and yet has one way out: a closed claim may be
reopened. -/

inductive ClaimStatus
  | new
  | underReview
  | pendingInfo
  | approved
  | inPayment
  | paid
  | denied
  | closed
  | reopened
  deriving DecidableEq, Repr

namespace ClaimStatus

def all : List ClaimStatus :=
  [.new, .underReview, .pendingInfo, .approved, .inPayment, .paid, .denied, .closed, .reopened]

def allowedNext : ClaimStatus → List ClaimStatus
  | new => [underReview, denied]
  | underReview => [pendingInfo, approved, denied]
  | pendingInfo => [underReview, denied]
  | approved => [inPayment]
  | inPayment => [paid]
  | paid => [closed]
  | denied => [closed]
  | closed => [reopened]
  | reopened => [underReview]

def isTerminal : ClaimStatus → Bool
  | closed => true
  | _ => false

def code : ClaimStatus → String
  | new => "NEW"
  | underReview => "UNDER_REVIEW"
  | pendingInfo => "PENDING_INFO"
  | approved => "APPROVED"
  | inPayment => "IN_PAYMENT"
  | paid => "PAID"
  | denied => "DENIED"
  | closed => "CLOSED"
  | reopened => "REOPENED"

end ClaimStatus

instance : WorkflowStatus ClaimStatus where
  entity := .claim
  all := ClaimStatus.all
  allowedNext := ClaimStatus.allowedNext
  isTerminal := ClaimStatus.isTerminal
  code := ClaimStatus.code

/-! ## Endorsements

The life of a mid-term change to a policy, from draft to issue or cancellation. -/

inductive EndorsementStatus
  | draft
  | pendingApproval
  | approved
  | rejected
  | issued
  | cancelled
  deriving DecidableEq, Repr

namespace EndorsementStatus

def all : List EndorsementStatus :=
  [.draft, .pendingApproval, .approved, .rejected, .issued, .cancelled]

def allowedNext : EndorsementStatus → List EndorsementStatus
  | draft => [pendingApproval, cancelled]
  | pendingApproval => [approved, rejected, draft]
  | approved => [issued, cancelled]
  | rejected => [draft, cancelled]
  | issued => []
  | cancelled => []

def isTerminal : EndorsementStatus → Bool
  | issued => true
  | cancelled => true
  | _ => false

def code : EndorsementStatus → String
  | draft => "DRAFT"
  | pendingApproval => "PENDING_APPROVAL"
  | approved => "APPROVED"
  | rejected => "REJECTED"
  | issued => "ISSUED"
  | cancelled => "CANCELLED"

end EndorsementStatus

instance : WorkflowStatus EndorsementStatus where
  entity := .endorsement
  all := EndorsementStatus.all
  allowedNext := EndorsementStatus.allowedNext
  isTerminal := EndorsementStatus.isTerminal
  code := EndorsementStatus.code

/-! ## The gate on raw codes

A caller asks about a move by the name of the entity and two codes. A text that is no code of the
entity is an error of its own, not a refusal, and the current status is read first. -/

/-- The move between two codes is an edge of the graph of `σ`. When neither code is known the error
is about the current one. -/
def moveAllowed (σ : Type) [DecidableEq σ] [WorkflowStatus σ] (current proposed : String) :
    Except UnknownStatus Bool := do
  let source : σ ← parseStatus current
  let target ← parseStatus proposed
  return canMove source target

/-- The codes that may follow a code in the graph of `σ`. -/
def codesAfter (σ : Type) [DecidableEq σ] [WorkflowStatus σ] (current : String) :
    Except UnknownStatus (List String) := do
  let source : σ ← parseStatus current
  return allowedCodes source

namespace Entity

/-- The gate of the entity on two codes: may a record go from the one to the other? -/
def transitionAllowed (e : Entity) (current proposed : String) : Except UnknownStatus Bool :=
  match e with
  | claim => moveAllowed ClaimStatus current proposed
  | underwriting => moveAllowed UnderwritingStatus current proposed
  | endorsement => moveAllowed EndorsementStatus current proposed

/-- The codes that the gate of the entity lets pass from a code, in the order in which they are
offered. -/
def allowedFrom (e : Entity) (current : String) : Except UnknownStatus (List String) :=
  match e with
  | claim => codesAfter ClaimStatus current
  | underwriting => codesAfter UnderwritingStatus current
  | endorsement => codesAfter EndorsementStatus current

end Entity

end PolicyDesk
