import PolicyDesk.Assessment
import PolicyDesk.Claims
import PolicyDesk.Decimal
import PolicyDesk.Desk
import PolicyDesk.Evaluation
import PolicyDesk.Http.Api
import PolicyDesk.Http.Message
import PolicyDesk.Json
import PolicyDesk.Json.Decode
import PolicyDesk.Main
import PolicyDesk.Program
import PolicyDesk.Proofs.Assessment.Admissible
import PolicyDesk.Proofs.Assessment.Factors
import PolicyDesk.Proofs.Assessment.Violations
import PolicyDesk.Proofs.Claims.History
import PolicyDesk.Proofs.Claims.Numbers
import PolicyDesk.Proofs.Collecting
import PolicyDesk.Proofs.Desk.Drafts
import PolicyDesk.Proofs.Desk.Effects
import PolicyDesk.Proofs.Desk.Finality
import PolicyDesk.Proofs.Desk.Floor
import PolicyDesk.Proofs.Desk.Isolation
import PolicyDesk.Proofs.Desk.Ledger
import PolicyDesk.Proofs.Desk.Offers
import PolicyDesk.Proofs.Desk.Records
import PolicyDesk.Proofs.Desk.Referrals
import PolicyDesk.Proofs.Desk.Runs
import PolicyDesk.Proofs.Desk.Script
import PolicyDesk.Proofs.Desk.Serializable
import PolicyDesk.Proofs.Desk.Sessions
import PolicyDesk.Proofs.Desk.Stages
import PolicyDesk.Proofs.Desk.Visits
import PolicyDesk.Proofs.Double.Arithmetic
import PolicyDesk.Proofs.Double.Bounds
import PolicyDesk.Proofs.Double.Grid
import PolicyDesk.Proofs.Double.Monotone
import PolicyDesk.Proofs.Double.Rounding
import PolicyDesk.Proofs.Double.Whole
import PolicyDesk.Proofs.Evaluation.Composite
import PolicyDesk.Proofs.Evaluation.Recommendation
import PolicyDesk.Proofs.Evaluation.RiskOrder
import PolicyDesk.Proofs.Evaluation.Scoring
import PolicyDesk.Proofs.Evaluation.ScoringDomain
import PolicyDesk.Proofs.Http.Answers
import PolicyDesk.Proofs.Http.TransitionChecks
import PolicyDesk.Proofs.Json
import PolicyDesk.Proofs.Quantity
import PolicyDesk.Proofs.Refusals
import PolicyDesk.Proofs.Store
import PolicyDesk.Proofs.Text
import PolicyDesk.Proofs.Underwriting.Bands
import PolicyDesk.Proofs.Underwriting.CarrierAccount
import PolicyDesk.Proofs.Underwriting.Changes
import PolicyDesk.Proofs.Underwriting.Decisions
import PolicyDesk.Proofs.Underwriting.Evaluations
import PolicyDesk.Proofs.Underwriting.FileAccount
import PolicyDesk.Proofs.Underwriting.Queue
import PolicyDesk.Proofs.Wire.RoundTrips
import PolicyDesk.Proofs.Wire.Severities
import PolicyDesk.Proofs.Workflow
import PolicyDesk.Quantity
import PolicyDesk.Score
import PolicyDesk.Settings
import PolicyDesk.Store
import PolicyDesk.Text
import PolicyDesk.Time
import PolicyDesk.Underwriting
import PolicyDesk.Wire
import PolicyDesk.Workflow
