import PolicyDesk.Claims
import PolicyDesk.Desk
import PolicyDesk.Http.Message
import PolicyDesk.Underwriting
import PolicyDesk.Wire
import PolicyDesk.Workflow

/-!
# The service over the network

Each route of the service as the answer to a request.
-/

namespace PolicyDesk

/-! ## Failures as responses

Input that breaks a rule is 422, a move that is not open or a record in the way is 409, a record
that is missing is 404. A store that is unavailable is 500 and a carrier that fails is 502. -/

section

open Http (Response)

/-- A refused move, with the statuses that would have been allowed. So a caller can offer the right
ones without asking again. -/
def TransitionError.response (e : TransitionError) : Response :=
  .json 409 (.record [("error", .str e.message), ("allowed", Json.ofStrings e.allowed)])

/-- The status tells whose fault it is; a conflict and a stale file are told apart by their texts.
-/
def UnderwritingError.response (e : UnderwritingError) : Response :=
  match e with
  | violations report => .brokenRules "rule violations" report
  | transition refusal => refusal.response
  | finalized _ _ => .error 409 e.message
  | store .notFound => .error 404 e.message
  | store .conflict => .error 409 "underwriting file already exists for this policy"
  | store .stale => .error 409 "underwriting file changed concurrently; reload and retry"
  | store (.unavailable _) => .error 500 e.message
  | carrier _ => .error 502 e.message

/-- A claim that moved meanwhile is reported in the words of the store. -/
def ClaimError.response (e : ClaimError) : Response :=
  match e with
  | missingPolicy => .error 422 e.message
  | transition refusal => refusal.response
  | store .notFound => .error 404 e.message
  | store .conflict => .error 409 e.message
  | store .stale => .error 409 e.message
  | store (.unavailable _) => .error 500 e.message

end

end PolicyDesk

namespace PolicyDesk.Http

/-! ## Routes

A route is a resource of the service. Its path is matched segment by segment and exactly as it is
written; a parameter is a segment kept as it stands in the path, and only one that ends the path may
not be empty. Each route takes one method, and a route that is read can also be asked for its head
alone. -/

/-- The two methods that routes take. -/
inductive Method
  | get
  | post
  deriving DecidableEq, Repr

/-- The resources of the service. A parameter is still percent-encoded. -/
inductive Route
  | health
  | readiness
  | metrics
  | severity
  | assessmentCheck
  | decisionCheck
  | transitionCheck
  | assessments
  | scores
  | queue
  | file (policyId : String)
  | evaluation (policyId : String)
  | decision (policyId : String)
  | claims
  | claim (claimId : String)
  | claimStatus (claimId : String)
  deriving DecidableEq, Repr

namespace Route

/-- What is only read is asked for with GET; a check of a rule carries a body and is posted. -/
def method : Route → Method
  | health | readiness | metrics | queue | file _ | claim _ => .get
  | _ => .post

/-- The route that the last segment of a path stands in, unless the segment is empty. A segment in
the middle of a path may be empty; it is then the empty id. -/
def endingIn (segment : String) (route : String → Route) : Option Route :=
  if segment.isEmpty then none else some (route segment)

/-- The route of a path below the versioned root. -/
def ofResource? : List String → Option Route
  | ["rules", "severity"] => some severity
  | ["rules", "assessments", "validate"] => some assessmentCheck
  | ["rules", "decisions", "validate"] => some decisionCheck
  | ["rules", "transitions", "check"] => some transitionCheck
  | ["underwriting", "assessments"] => some assessments
  | ["underwriting", "scores"] => some scores
  | ["underwriting", "queue"] => some queue
  | ["underwriting", "files", policyId] => endingIn policyId file
  | ["underwriting", "files", policyId, "evaluate"] => some (evaluation policyId)
  | ["underwriting", "files", policyId, "decision"] => some (decision policyId)
  | ["claims"] => some claims
  | ["claims", claimId] => endingIn claimId claim
  | ["claims", claimId, "status"] => some (claimStatus claimId)
  | _ => none

/-- The route of the segments of a path. The first segment is empty, since a path begins with a
slash; one slash more at its end is another path. -/
def ofSegments? : List String → Option Route
  | ["", "health"] => some health
  | ["", "ready"] => some readiness
  | ["", "metrics"] => some metrics
  | "" :: "api" :: "v1" :: resource => ofResource? resource
  | _ => none

def ofPath? (path : String) : Option Route := ofSegments? (path.splitOn "/")

end Route

end PolicyDesk.Http

namespace PolicyDesk.Http.Operations

/-! ## Operations over the network

Each operation on files and claims as the answer to a request. A body that cannot be used is
answered before anything is read or written (`withBody`); otherwise the answer is the result of the
operation or the response of its failure (`answer`). -/

section

variable {m : Type → Type} [Monad m]

/-- Runs an operation and responds to its result. Which response belongs to a failure is settled
once for each kind of failure, not for each operation. -/
def answer {ε β : Type} (failed : ε → Response) (done : β → Response) (operation : ExceptT ε m β) :
    m Response := do
  match ← operation.run with
  | .ok b => return done b
  | .error e => return failed e

/-! ### Underwriting files -/

section Files

variable [RecordStore UnderwritingFile m]

def showFile (status : Nat) (file : UnderwritingFile) : Response :=
  .json status file.statusView.toJson

def submit (body : Body (AssessmentInput Float)) (now : Instant) : m Response :=
  withBody body fun input =>
    answer UnderwritingError.response (showFile 202) (Underwriting.submit input now)

def score (config : EvaluationConfig Float) (body : Body (ScoreRequest Float)) (now : Instant) :
    m Response :=
  withBody body fun request =>
    answer UnderwritingError.response (showFile 202) (Underwriting.score config request now)

def file (policyId : PolicyId) : m Response :=
  answer UnderwritingError.response (showFile 200) (Underwriting.get policyId)

/-- How many files a queue shows when no limit is asked for. -/
def defaultQueueLimit : Nat := 50

/-- The files that await an underwriter, up to the limit of a query. A limit that cannot be used is
answered in plain text, without reading the store. -/
def queue [FileQueue m] (query : String) : m Response :=
  match readLimit query with
  | .error () => return .text 400 "Failed to deserialize query string"
  | .ok limit =>
    answer UnderwritingError.response
      (fun files => .json 200 (.arr (files.map fun f => f.statusView.toJson)))
      (Underwriting.queue (limit.getD defaultQueueLimit))

variable [CarrierGateway m]

def evaluate (config : EvaluationConfig Float) (policyId : PolicyId) : m Response :=
  answer UnderwritingError.response (fun outcome => .json 200 outcome.toJson)
    (Underwriting.evaluate config policyId)

def decide (policyId : PolicyId) (body : Body DecisionRequest) (now : Instant) : m Response :=
  withBody body fun request =>
    answer UnderwritingError.response (showFile 200)
      (Underwriting.decide policyId request.proposal request.decidedBy now)

end Files

/-! ### Claims -/

section Claims

variable [RecordStore Claim m]

def showClaim (status : Nat) (claim : Claim) : Response := .json status claim.view.toJson

def openClaim [ClaimNumbers m] (body : Body OpenClaim) : m Response :=
  withBody body fun request =>
    answer ClaimError.response (showClaim 201) (Claims.openClaim request)

def claim (claimId : ClaimId) : m Response :=
  answer ClaimError.response (fun claim => .json 200 claim.toJson) (Claims.get claimId)

def moveClaim (claimId : ClaimId) (body : Body ClaimTransition) (now : Instant) : m Response :=
  withBody body fun request =>
    answer ClaimError.response (showClaim 200) (Claims.transition claimId request now)

end Claims

end

end PolicyDesk.Http.Operations

namespace PolicyDesk.Http.Rules

/-! ## Checks over the network

The answers to questions about the rules. Nothing is stored and nothing is read from a store: the
same question always has the same answer. -/

/-- The body that asks for the band of a score. Its only field is the score. -/
def scoreBody : Decoder Float :=
  ((Shape.of id).required "score" Decoder.float).decode

/-- The band of a score. A number that is no score is answered with a report, as a broken rule. -/
def severity (body : Body Float) : Response :=
  Id.run <| withBody body fun x =>
    match Score.ofValue x with
    | .ok score =>
      return .json 200 (.record [("score", score.toJson), ("severity", score.severity.toJson)])
    | .error e => return .json 422 (Report.toJson ⟨[⟨"score", e.message⟩]⟩)

/-- The report on a submission. Broken rules are the answer here and no failure: the status is 200
whatever the report says. -/
def assessmentCheck (body : Body (AssessmentInput Float)) : Response :=
  Id.run <| withBody body fun input => return .json 200 input.validate.toJson

/-- The report on a proposed decision. It is the report of the rules on the proposal; the
underwriter is not asked for. -/
def decisionCheck (body : Body ProposedDecision) : Response :=
  Id.run <| withBody body fun proposal => return .json 200 proposal.validate.toJson

/-- Whether a move is open, and the codes that may follow. A text that is no code of the entity is
the fault of the caller. -/
def transitionCheck (body : Body TransitionCheck) : Response :=
  Id.run <| withBody body fun check =>
    let checked : Except UnknownStatus (Bool × List String) := do
      let allowed ← check.entity.transitionAllowed check.currentStatus check.proposedStatus
      let next ← check.entity.allowedFrom check.currentStatus
      return (allowed, next)
    match checked with
    | .ok (allowed, next) =>
      return .json 200 (.record
        [("entity", check.entity.toJson), ("allowed", .bool allowed),
         ("allowed_next", Json.ofStrings next)])
    | .error e => return .error 400 e.message

end PolicyDesk.Http.Rules

namespace PolicyDesk.Http

/-! ## The service

`Api.handle` answers one request. The path is matched first, then the method, then the parameter of
the path is decoded, and only then is the body read. A path that is not known is 404 and a method
that the route does not take is 405, both without a text; the head of a route is its answer without
the content. -/

/-- What a service is set up with. It stays the same from request to request. -/
structure Api where
  config : EvaluationConfig Float
  /-- The service has started and takes requests. -/
  ready : Bool
  /-- What the reader of bodies says of a fault. -/
  rejection : BodyFault → String

namespace Api

def health : Response := .json 200 (.record [("status", .str "ok")])

/-- A service that is still starting says so, and health does not depend on it. -/
def readiness (api : Api) : Response :=
  if api.ready then .json 200 (.record [("status", .str "ready")])
  else .json 503 (.record [("status", .str "initializing")])

/-- The body of a request, or its rejection. -/
def body {α : Type} (api : Api) (decode : Decoder α) (request : Request) : Body α :=
  (readBody decode request).mapError fun fault => ⟨api.rejection fault⟩

variable {m : Type → Type} [Monad m]

/-- Answers with the decoded parameter of a path. A parameter that does not decode is refused before
the operation is looked at. -/
def withParameter (raw : String) (respond : String → m Response) : m Response :=
  match decodeText? raw with
  | some parameter => respond parameter
  | none => return .text 400 "Invalid URL"

variable [RecordStore UnderwritingFile m] [RecordStore Claim m] [FileQueue m] [CarrierGateway m]
  [ClaimNumbers m]

/-- The answer of a route. The current time is handed in, and routes that record no time leave it
aside. -/
def respond (api : Api) (route : Route) (request : Request) (now : Instant) : m Response :=
  match route with
  | .health => return health
  | .readiness => return api.readiness
  | .metrics => return .text 200 ""
  | .severity => return Rules.severity (api.body Rules.scoreBody request)
  | .assessmentCheck => return Rules.assessmentCheck (api.body AssessmentInput.ofJson request)
  | .decisionCheck => return Rules.decisionCheck (api.body ProposedDecision.ofJson request)
  | .transitionCheck => return Rules.transitionCheck (api.body TransitionCheck.ofJson request)
  | .assessments => Operations.submit (api.body AssessmentInput.ofJson request) now
  | .scores => Operations.score api.config (api.body ScoreRequest.ofJson request) now
  | .queue => Operations.queue request.target.query
  | .file raw => withParameter raw Operations.file
  | .evaluation raw => withParameter raw (Operations.evaluate api.config)
  | .decision raw => withParameter raw fun policyId =>
    Operations.decide policyId (api.body DecisionRequest.ofJson request) now
  | .claims => Operations.openClaim (api.body OpenClaim.ofJson request)
  | .claim raw => withParameter raw Operations.claim
  | .claimStatus raw => withParameter raw fun claimId =>
    Operations.moveClaim claimId (api.body ClaimTransition.ofJson request) now

/-- The answer to a request. One step from request to response; all that it can change is in the
monad. -/
def handle (api : Api) (request : Request) (now : Instant) : m Response :=
  match Route.ofPath? request.target.path with
  | none => return .text 404 ""
  | some route =>
    match request.method, route.method with
    | "GET", .get | "POST", .post => api.respond route request now
    -- A route that is read can be asked for its head alone.
    | "HEAD", .get => do
      let response ← api.respond route request now
      return .text response.status ""
    | _, _ => return .text 405 ""

end Api

end PolicyDesk.Http
