import PolicyDesk.Quantity
import PolicyDesk.Text

/-!
# Scores, weights and severities

- A `Score` is a finite number from 0 to 100 and a `Weight` a finite number from 0 to 1; `ofValue`
  builds one from a bare number or names the number it refuses.
- A `Severity` is the band of a score: LOW up to 60, MEDIUM up to 80, HIGH above (`Score.severity`).
- `Severity.parse` reads a code in any case and with blanks around it.
-/

namespace PolicyDesk

/-! ## Severities -/

/-- The qualitative level of a risk, from the least to the greatest. -/
inductive Severity
  | low
  | medium
  | high
  deriving DecidableEq, Repr

namespace Severity

/-- In the order in which a message names them. -/
def all : List Severity := [.low, .medium, .high]

def code : Severity → String
  | low => "LOW"
  | medium => "MEDIUM"
  | high => "HIGH"

/-- How a severity stands in the middle of a sentence, such as the rationale of an evaluation. -/
def label : Severity → String
  | low => "low"
  | medium => "medium"
  | high => "high"

/-- The place in the order of severities. -/
def rank : Severity → Nat
  | low => 0
  | medium => 1
  | high => 2

instance : LE Severity := ⟨fun a b => a.rank ≤ b.rank⟩

instance (a b : Severity) : Decidable (a ≤ b) := inferInstanceAs (Decidable (a.rank ≤ b.rank))

end Severity

/-- A text that is no severity. -/
structure UnknownSeverity where
  raw : String
  deriving DecidableEq, Repr

def UnknownSeverity.message (e : UnknownSeverity) : String :=
  "unknown severity '" ++ e.raw ++ "' (expected LOW, MEDIUM or HIGH)"

/-- Reads a severity code; a refusal carries the text as it was given. -/
def Severity.parse (raw : String) : Except UnknownSeverity Severity :=
  match Text.ofCode? Severity.all Severity.code raw with
  | some s => .ok s
  | none => .error ⟨raw⟩

/-! ## Scores -/

section

variable {α : Type} [Quantity α]

/-- A finite number from 0 to 100. Both bounds belong to it; a number that is not finite is refused
whatever it compares with. -/
def Score.InRange (x : α) : Prop :=
  Quantity.isFinite x = true ∧ Quantity.whole 0 ≤ x ∧ x ≤ Quantity.whole 100

instance (x : α) : Decidable (Score.InRange x) := inferInstanceAs (Decidable (_ ∧ _ ∧ _))

/-- A finite number from 0 to 1. A weight of zero is allowed: the factor is then listed but counts
for nothing. -/
def Weight.InRange (x : α) : Prop :=
  Quantity.isFinite x = true ∧ Quantity.whole 0 ≤ x ∧ x ≤ Quantity.whole 1

instance (x : α) : Decidable (Weight.InRange x) := inferInstanceAs (Decidable (_ ∧ _ ∧ _))

end

/-- A number known to be a score; the proof makes a number outside the range impossible. -/
structure Score (α : Type) [Quantity α] where
  value : α
  inRange : Score.InRange value

/-- A number known to be a weight, as `Score` is one known to be a score. -/
structure Weight (α : Type) [Quantity α] where
  value : α
  inRange : Weight.InRange value

/-- A number that is no score. -/
structure ScoreOutOfRange (α : Type) where
  value : α

/-- A number that is no weight. -/
structure WeightOutOfRange (α : Type) where
  value : α

variable {α : Type} [Quantity α]

def ScoreOutOfRange.message (e : ScoreOutOfRange α) : String :=
  "risk score " ++ Quantity.text e.value ++ " must be a number between 0 and 100"

def WeightOutOfRange.message (e : WeightOutOfRange α) : String :=
  "weight " ++ Quantity.text e.value ++ " must be between 0 and 1"

namespace Score

@[ext] theorem ext {a b : Score α} (h : a.value = b.value) : a = b := by
  cases a; cases b; cases h; rfl

instance [DecidableEq α] : DecidableEq (Score α) := fun a b =>
  decidable_of_iff (a.value = b.value) ⟨ext, congrArg value⟩

/-- The score of a number, or the number itself when it is none. -/
def ofValue (x : α) : Except (ScoreOutOfRange α) (Score α) :=
  if h : InRange x then .ok ⟨x, h⟩ else .error ⟨x⟩

/-- The greatest score of the LOW band. -/
def lowMax : α := Quantity.whole 60

/-- The greatest score of the MEDIUM band. -/
def mediumMax : α := Quantity.whole 80

/-- The band of a score; each band holds its upper bound. The bounds are tested on the stored value,
not on the two places that `text` shows. -/
def severity (s : Score α) : Severity :=
  if s.value ≤ lowMax then .low
  else if s.value ≤ mediumMax then .medium
  else .high

/-- A score in a message, with two decimal places. -/
def text (s : Score α) : String := Quantity.fixed 2 s.value

theorem ofValue_value (s : Score α) : ofValue s.value = .ok s := by
  simp [ofValue, s.inRange]

theorem value_of_ofValue {x : α} {s : Score α} (h : ofValue x = .ok s) : s.value = x := by
  unfold ofValue at h
  split at h
  · cases h; rfl
  · cases h

theorem ofValue_eq_error_iff {x : α} {e : ScoreOutOfRange α} :
    ofValue x = .error e ↔ ¬ InRange x ∧ e = ⟨x⟩ := by
  unfold ofValue
  split <;> simp_all [eq_comm]

end Score

namespace Weight

@[ext] theorem ext {a b : Weight α} (h : a.value = b.value) : a = b := by
  cases a; cases b; cases h; rfl

instance [DecidableEq α] : DecidableEq (Weight α) := fun a b =>
  decidable_of_iff (a.value = b.value) ⟨ext, congrArg value⟩

/-- The weight of a number, or the number itself when it is none. -/
def ofValue (x : α) : Except (WeightOutOfRange α) (Weight α) :=
  if h : InRange x then .ok ⟨x, h⟩ else .error ⟨x⟩

theorem ofValue_value (w : Weight α) : ofValue w.value = .ok w := by
  simp [ofValue, w.inRange]

theorem value_of_ofValue {x : α} {w : Weight α} (h : ofValue x = .ok w) : w.value = x := by
  unfold ofValue at h
  split at h
  · cases h; rfl
  · cases h

end Weight

end PolicyDesk
