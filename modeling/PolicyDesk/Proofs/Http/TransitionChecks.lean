import PolicyDesk.Http.Api
import PolicyDesk.Proofs.Http.Answers
import PolicyDesk.Proofs.Workflow

/-!
# Questions to the gate

Any two texts can be put to the gate of an entity, and what it says of them is what the service
answers (`Entity.gate_account`). A text that is no status is an error and never a refusal; blanks
around a text and the case of its letters make no difference.
-/

namespace PolicyDesk

open WorkflowStatus (code)
open Http (Request Response Route readBody)

/-- The request asks, over the network, whether an entity may move from one text to another. What
the content type says and how the body is spelled is left to the decoding. -/
structure Http.Request.Asks (request : Request) (check : TransitionCheck) : Prop where
  method : request.method = "POST"
  path : request.target.path = "/api/v1/rules/transitions/check"
  body : readBody TransitionCheck.ofJson request = .ok check

/-- What the gate of an entity makes of two texts. The same for claims and for underwriting files.
-/
structure GateAccount (e : Entity) (current proposed : String) : Prop where
  /-- A text that is no status is an error. -/
  unknown : (∃ err, e.transitionAllowed current proposed = .error err) ↔
    ¬ e.Knows current ∨ ¬ e.Knows proposed
  /-- The error gives the current text as it was put, if that one is no status. -/
  source : ¬ e.Knows current → e.transitionAllowed current proposed = .error ⟨e, current⟩
  target : e.Knows current → ¬ e.Knows proposed →
    e.transitionAllowed current proposed = .error ⟨e, proposed⟩
  /-- Of two statuses the gate on texts, the codes offered and the gate on statuses agree. -/
  known : e.Knows current → e.Knows proposed →
    ∃ (s t : e.Status) (allowed : Bool) (next : List String),
      (∀ x : e.Status, Text.Spells current (code x) ↔ x = s) ∧
      (∀ x : e.Status, Text.Spells proposed (code x) ↔ x = t) ∧
      e.transitionAllowed current proposed = .ok allowed ∧ e.allowedFrom current = .ok next ∧
      (allowed = true ↔ code t ∈ next) ∧ (allowed = true ↔ checkTransition s t = .ok ())
  /-- What the service answers on any desk. -/
  answered : ∀ (api : Http.Api) (desk : Desk) (carrier : CarrierAnswer) (now : Instant)
    (request : Request), request.Asks ⟨e, current, proposed⟩ →
    let response := desk.respond carrier (api.handle request now)
    (∀ allowed next, e.transitionAllowed current proposed = .ok allowed →
      e.allowedFrom current = .ok next →
      response = .json 200 (.record [("entity", .str e.name), ("allowed", .bool allowed),
        ("allowed_next", Json.ofStrings next)])) ∧
    ∀ err, e.transitionAllowed current proposed = .error err →
      response = .json 400 (.record [("error", .str err.message)])
  /-- Blanks and case make no difference. -/
  respelled : ∀ current' proposed', Text.Spells current' current → Text.Spells proposed' proposed →
    (e.transitionAllowed current' proposed').toOption =
      (e.transitionAllowed current proposed).toOption ∧
    (e.allowedFrom current').toOption = (e.allowedFrom current).toOption

namespace Entity

variable {e : Entity} {current proposed : String}

/-- The path is taken apart at its slashes, so that the route is found by its parts. -/
private theorem ofPath?_check :
    Route.ofPath? "/api/v1/rules/transitions/check" = some .transitionCheck := by
  have hsplit : "/api/v1/rules/transitions/check".splitOn "/" =
      ["", "api", "v1", "rules", "transitions", "check"] := by
    -- The search for slashes is not structural, so it is unfolded step by step.
    rw [String.splitOn, if_neg (by decide)]
    repeat rw [String.splitOnAux]; simp +decide only [↓reduceIte]
  rw [Route.ofPath?, hsplit]
  rfl

/-- A question is answered by the rules alone. -/
private theorem respond_asked {request : Request} {check : TransitionCheck} (h : request.Asks check)
    (api : Http.Api) (desk : Desk) (carrier : CarrierAnswer) (now : Instant) :
    desk.respond carrier (api.handle request now) = Http.Rules.transitionCheck (.ok check) := by
  rw [Http.Api.handle, h.path, ofPath?_check, h.method]
  show Http.Rules.transitionCheck (api.body TransitionCheck.ofJson request) = _
  rw [Http.Api.body, h.body]
  rfl

/-- The rules answer with what the gate allows and the codes it offers. -/
private theorem transitionCheck_of_ok {allowed : Bool} {next : List String}
    (hallowed : e.transitionAllowed current proposed = .ok allowed)
    (hnext : e.allowedFrom current = .ok next) :
    Http.Rules.transitionCheck (.ok ⟨e, current, proposed⟩) =
      .json 200 (.record [("entity", .str e.name), ("allowed", .bool allowed),
        ("allowed_next", Json.ofStrings next)]) := by
  unfold Http.Rules.transitionCheck Http.withBody
  simp only [hallowed, hnext]
  rfl

private theorem transitionCheck_of_error {err : UnknownStatus}
    (h : e.transitionAllowed current proposed = .error err) :
    Http.Rules.transitionCheck (.ok ⟨e, current, proposed⟩) =
      .json 400 (.record [("error", .str err.message)]) := by
  unfold Http.Rules.transitionCheck Http.withBody
  simp only [h]
  rfl

/-- **The gate on texts.** The answer over the network needs no desk, and is the same on all. -/
theorem gate_account (e : Entity) (current proposed : String) :
    GateAccount e current proposed where
  unknown := transitionAllowed_eq_error
  source := transitionAllowed_of_source
  target := transitionAllowed_of_target
  known := transitionAllowed_of_knows
  answered api desk carrier now request hasks := by
    rw [respond_asked hasks]
    exact ⟨fun _ _ hallowed hnext => transitionCheck_of_ok hallowed hnext,
      fun _ herror => transitionCheck_of_error herror⟩
  respelled _ _ hc hp := ⟨transitionAllowed_congr hc hp, allowedFrom_congr hc⟩

example : Request.Asks
    ⟨"POST", ⟨"/api/v1/rules/transitions/check", ""⟩, some "application/json",
      "\x7b\"entity\":\"claim\",\"current_status\":\" new\",\"proposed_status\":\"Denied\"\x7d"⟩
    ⟨.claim, " new", "Denied"⟩ :=
  ⟨rfl, rfl, toOption_eq_some.mp (by decide +kernel)⟩

end Entity

end PolicyDesk
