import PolicyDesk.Proofs.Text
import PolicyDesk.Workflow

/-!
# Statuses, codes and texts

The gate on statuses, on their codes and on any texts is one and the same.
-/

namespace PolicyDesk

/-! ## Statuses and their codes

The statuses of a workflow are told apart by their codes (`LawfulWorkflow`), so a question about
codes is a question about statuses.

- **Reading** (`parseStatus_eq_ok`): a text is read as the status whose code it names.
- **Offers** (`mem_allowedCodes`): the codes offered after a status are those of the statuses that
  may follow it.
- **Gates** (`moveAllowed_code`, `checkTransition_of_not_mem`): the gate on codes lets a move pass
  when the gate on statuses does, and a refusal carries the codes offered. -/

section

open WorkflowStatus (entity all allowedNext isTerminal code)

/-- Every status is listed, and has a code of its own, without blanks around it. The graph plays no
part in it. -/
class LawfulWorkflow (σ : Type) [WorkflowStatus σ] : Prop where
  mem_all : ∀ s : σ, s ∈ all
  eq_of_sameCode : ∀ s t : σ, Text.sameCode (code s) (code t) = true → s = t
  trim_code : ∀ s : σ, Text.trim (code s) = code s

instance : LawfulWorkflow UnderwritingStatus where
  mem_all s := by cases s <;> decide
  eq_of_sameCode s t := by cases s <;> cases t <;> decide +kernel
  trim_code s := by cases s <;> decide +kernel

instance : LawfulWorkflow ClaimStatus where
  mem_all s := by cases s <;> decide
  eq_of_sameCode s t := by cases s <;> cases t <;> decide +kernel
  trim_code s := by cases s <;> decide +kernel

instance : LawfulWorkflow EndorsementStatus where
  mem_all s := by cases s <;> decide
  eq_of_sameCode s t := by cases s <;> cases t <;> decide +kernel
  trim_code s := by cases s <;> decide +kernel

variable {σ : Type} [WorkflowStatus σ] [LawfulWorkflow σ] {s t : σ}

open LawfulWorkflow (mem_all eq_of_sameCode trim_code)

/-- A text is read as the status whose code it names. No text is read as two statuses, because the
codes differ in more than case. -/
theorem parseStatus_eq_ok {raw : String} :
    parseStatus raw = .ok s ↔ Text.Names raw (code s) := by
  have hread : Text.ofCode? all code raw = some s ↔ Text.Names raw (code s) :=
    Text.ofCode?_eq_some mem_all eq_of_sameCode
  rw [← hread, parseStatus]
  cases Text.ofCode? (all : List σ) code raw <;> simp

theorem parseStatus_code (s : σ) : (parseStatus (code s) : Except UnknownStatus σ) = .ok s := by
  rw [parseStatus_eq_ok, Text.Names, trim_code, Text.sameCode_refl]

theorem code_inj : code s = code t ↔ s = t := by
  refine ⟨fun h => eq_of_sameCode s t ?_, congrArg code⟩
  rw [h, Text.sameCode_refl]

/-- The codes offered are those of the statuses that may follow. No code stands for two statuses, so
none is offered by mistake. -/
theorem mem_allowedCodes : code t ∈ allowedCodes s ↔ t ∈ allowedNext s := by
  constructor
  · intro h
    obtain ⟨t', ht, hcode⟩ := List.mem_map.mp h
    exact code_inj.mp hcode ▸ ht
  · exact List.mem_map_of_mem

variable [DecidableEq σ]

/-- The gate on codes is the gate on the statuses that they name. It never fails there. -/
theorem moveAllowed_code (s t : σ) :
    moveAllowed σ (code s) (code t) = .ok (decide (t ∈ allowedNext s)) := by
  simp only [moveAllowed, parseStatus_code]
  rfl

theorem moveAllowed_eq_true :
    moveAllowed σ (code s) (code t) = .ok true ↔ t ∈ allowedNext s := by
  simp [moveAllowed_code]

omit [LawfulWorkflow σ] in
/-- A move that the graph does not have is refused with the codes offered. The codes come in the
order in which they are offered. -/
theorem checkTransition_of_not_mem (h : t ∉ allowedNext s) :
    checkTransition s t = .error ⟨entity σ, code s, code t, allowedCodes s⟩ := by
  simp [checkTransition, canMove, h]

end

/-! ## The gate on raw texts

Any text can be put to the gate for a code.

- **Reading** (`parseStatus_of_spells`, `parseStatus_of_unknown`): a text is read as the status
  whose code it spells, or it is no status of the entity and comes back in the error as it was
  given.
- **Moves** (`moveAllowed_of_spells`, `moveAllowed_of_source`, `moveAllowed_of_target`): the gate
  answers for the statuses that are spelled, and otherwise with the first text that is none.
- **Spellings** (`parseStatus_congr`): blanks around a text and the case of its letters make no
  difference to what is read.
- **Entities** (`Entity.Status`): the same for the graph of any entity. -/

section

open WorkflowStatus (entity all allowedNext isTerminal code)
open LawfulWorkflow (trim_code)

/-! ### One graph -/

section

variable {σ : Type} [WorkflowStatus σ] [LawfulWorkflow σ] {raw raw' current proposed : String}
  {s t : σ}

theorem parseStatus_of_spells (h : Text.Spells raw (code s)) :
    (parseStatus raw : Except UnknownStatus σ) = .ok s :=
  parseStatus_eq_ok.mpr ((Text.spells_iff_names (trim_code s)).mp h)

theorem parseStatus_of_unknown (h : ∀ s : σ, ¬ Text.Spells raw (code s)) :
    (parseStatus raw : Except UnknownStatus σ) = .error ⟨entity σ, raw⟩ := by
  unfold parseStatus
  cases hread : Text.ofCode? (all : List σ) code raw with
  | none => rfl
  | some s =>
    have hok : (parseStatus raw : Except UnknownStatus σ) = .ok s := by rw [parseStatus, hread]
    exact absurd ((Text.spells_iff_names (trim_code s)).mpr (parseStatus_eq_ok.mp hok)) (h s)

/-- A text spells one code at most. Which one is then the only status of that spelling. -/
theorem spells_iff_eq (h : Text.Spells raw (code s)) : Text.Spells raw (code t) ↔ t = s := by
  refine ⟨fun ht => ?_, fun heq => heq ▸ h⟩
  exact Except.ok.inj ((parseStatus_of_spells ht).symm.trans (parseStatus_of_spells h))

variable [DecidableEq σ]

/-- Both texts spell statuses: the gate on these answers. -/
theorem moveAllowed_of_spells (hs : Text.Spells current (code s))
    (ht : Text.Spells proposed (code t)) :
    moveAllowed σ current proposed = .ok (canMove s t) := by
  rw [moveAllowed, parseStatus_of_spells hs, parseStatus_of_spells ht]
  rfl

/-- The current status is read first. -/
theorem moveAllowed_of_source (h : ∀ s : σ, ¬ Text.Spells current (code s)) :
    moveAllowed σ current proposed = .error ⟨entity σ, current⟩ := by
  rw [moveAllowed, parseStatus_of_unknown h]
  rfl

theorem moveAllowed_of_target (hs : Text.Spells current (code s))
    (h : ∀ t : σ, ¬ Text.Spells proposed (code t)) :
    moveAllowed σ current proposed = .error ⟨entity σ, proposed⟩ := by
  rw [moveAllowed, parseStatus_of_spells hs, parseStatus_of_unknown h]
  rfl

theorem codesAfter_of_spells (hs : Text.Spells current (code s)) :
    codesAfter σ current = .ok (allowedCodes s) := by
  rw [codesAfter, parseStatus_of_spells hs]
  rfl

omit [LawfulWorkflow σ] in
private theorem checkTransition_eq_ok_iff : checkTransition s t = .ok () ↔ canMove s t = true := by
  rw [checkTransition_eq_ok, canMove, decide_eq_true_iff]

omit [LawfulWorkflow σ] [DecidableEq σ] in
/-- Blanks and case make no difference to what is read. The errors differ, since each carries the
text that was given. -/
theorem parseStatus_congr (h : Text.Spells raw' raw) :
    (parseStatus raw' : Except UnknownStatus σ).toOption = (parseStatus raw).toOption := by
  rw [parseStatus, parseStatus, h.ofCode?_eq]
  cases Text.ofCode? (all : List σ) code raw <;> rfl

omit [LawfulWorkflow σ] in
private theorem toOption_moveAllowed (current proposed : String) :
    (moveAllowed σ current proposed).toOption =
      (parseStatus current : Except UnknownStatus σ).toOption.bind fun s =>
        (parseStatus proposed : Except UnknownStatus σ).toOption.map (canMove s) := by
  rw [moveAllowed]
  cases (parseStatus current : Except UnknownStatus σ) with
  | error e => rfl
  | ok s => cases (parseStatus proposed : Except UnknownStatus σ) <;> rfl

omit [LawfulWorkflow σ] in
private theorem toOption_codesAfter (current : String) :
    (codesAfter σ current).toOption =
      (parseStatus current : Except UnknownStatus σ).toOption.map allowedCodes := by
  rw [codesAfter]
  cases (parseStatus current : Except UnknownStatus σ) <;> rfl

end

/-! ### Every entity -/

namespace Entity

/-- The statuses of an entity. What is proved of all graphs at once can be said of an entity that is
only known when it runs. -/
def Status : Entity → Type
  | claim => ClaimStatus
  | underwriting => UnderwritingStatus
  | endorsement => EndorsementStatus

instance (e : Entity) : DecidableEq e.Status :=
  match e with
  | claim => inferInstanceAs (DecidableEq ClaimStatus)
  | underwriting => inferInstanceAs (DecidableEq UnderwritingStatus)
  | endorsement => inferInstanceAs (DecidableEq EndorsementStatus)

instance (e : Entity) : WorkflowStatus e.Status :=
  match e with
  | claim => inferInstanceAs (WorkflowStatus ClaimStatus)
  | underwriting => inferInstanceAs (WorkflowStatus UnderwritingStatus)
  | endorsement => inferInstanceAs (WorkflowStatus EndorsementStatus)

instance (e : Entity) : LawfulWorkflow e.Status :=
  match e with
  | claim => inferInstanceAs (LawfulWorkflow ClaimStatus)
  | underwriting => inferInstanceAs (LawfulWorkflow UnderwritingStatus)
  | endorsement => inferInstanceAs (LawfulWorkflow EndorsementStatus)

theorem entity_status (e : Entity) : entity e.Status = e := by
  cases e <;> rfl

theorem transitionAllowed_eq (e : Entity) (current proposed : String) :
    e.transitionAllowed current proposed = moveAllowed e.Status current proposed := by
  cases e <;> rfl

theorem allowedFrom_eq (e : Entity) (current : String) :
    e.allowedFrom current = codesAfter e.Status current := by
  cases e <;> rfl

/-- The text spells the code of a status of the entity. Blanks around the code and its case do not
count. -/
def Knows (e : Entity) (raw : String) : Prop := ∃ s : e.Status, Text.Spells raw (code s)

variable {e : Entity} {raw raw' current current' proposed proposed' : String}

theorem not_knows_iff : ¬ e.Knows raw ↔ ∀ s : e.Status, ¬ Text.Spells raw (code s) := not_exists

/-- The current status is read first. So the error names it whatever the proposed status is. -/
theorem transitionAllowed_of_source (h : ¬ e.Knows current) :
    e.transitionAllowed current proposed = .error ⟨e, current⟩ := by
  rw [transitionAllowed_eq, moveAllowed_of_source (not_knows_iff.mp h), entity_status]

theorem transitionAllowed_of_target (hc : e.Knows current) (hp : ¬ e.Knows proposed) :
    e.transitionAllowed current proposed = .error ⟨e, proposed⟩ := by
  obtain ⟨s, hs⟩ := hc
  rw [transitionAllowed_eq, moveAllowed_of_target hs (not_knows_iff.mp hp), entity_status]

/-- The gate has an error exactly for a text that it does not know. A move that the graph does not
have is an answer and no error. -/
theorem transitionAllowed_eq_error :
    (∃ err, e.transitionAllowed current proposed = .error err) ↔
      ¬ e.Knows current ∨ ¬ e.Knows proposed := by
  by_cases hc : e.Knows current
  · by_cases hp : e.Knows proposed
    · obtain ⟨s, hs⟩ := hc
      obtain ⟨t, ht⟩ := hp
      rw [transitionAllowed_eq, moveAllowed_of_spells hs ht]
      exact iff_of_false nofun fun h => h.elim (· ⟨s, hs⟩) (· ⟨t, ht⟩)
    · exact iff_of_true ⟨_, transitionAllowed_of_target hc hp⟩ (.inr hp)
  · exact iff_of_true ⟨_, transitionAllowed_of_source hc⟩ (.inl hc)

/-- Blanks and case make no difference to the answer of the gate. -/
theorem transitionAllowed_congr (hc : Text.Spells current' current)
    (hp : Text.Spells proposed' proposed) :
    (e.transitionAllowed current' proposed').toOption =
      (e.transitionAllowed current proposed).toOption := by
  rw [transitionAllowed_eq, transitionAllowed_eq, toOption_moveAllowed, toOption_moveAllowed,
    parseStatus_congr hc, parseStatus_congr hp]

theorem allowedFrom_congr (hc : Text.Spells current' current) :
    (e.allowedFrom current').toOption = (e.allowedFrom current).toOption := by
  rw [allowedFrom_eq, allowedFrom_eq, toOption_codesAfter, toOption_codesAfter,
    parseStatus_congr hc]

/-- Both texts spell statuses: what the gate on texts answers, the codes offered and the gate on
statuses agree. -/
theorem transitionAllowed_of_knows (hc : e.Knows current) (hp : e.Knows proposed) :
    ∃ (s t : e.Status) (allowed : Bool) (next : List String),
      (∀ x : e.Status, Text.Spells current (code x) ↔ x = s) ∧
      (∀ x : e.Status, Text.Spells proposed (code x) ↔ x = t) ∧
      e.transitionAllowed current proposed = .ok allowed ∧ e.allowedFrom current = .ok next ∧
      (allowed = true ↔ code t ∈ next) ∧ (allowed = true ↔ checkTransition s t = .ok ()) := by
  obtain ⟨s, hs⟩ := hc
  obtain ⟨t, ht⟩ := hp
  refine ⟨s, t, canMove s t, allowedCodes s, fun _ => spells_iff_eq hs, fun _ => spells_iff_eq ht,
    ?_, ?_, ?_, checkTransition_eq_ok_iff.symm⟩
  · rw [transitionAllowed_eq, moveAllowed_of_spells hs ht]
  · rw [allowedFrom_eq, codesAfter_of_spells hs]
  · rw [mem_allowedCodes, canMove, decide_eq_true_iff]

end Entity

end

end PolicyDesk
