/-!
# Texts and reports

How the desk reads names and codes, and how it says which rules an input breaks.
-/

namespace PolicyDesk.Text

/-! ## Texts

White space and letter case, as the desk reads names and codes.

- A character is blank when it has the Unicode property White_Space (`isBlankChar`).
- `trim` drops the blank characters at both ends of a text; `isBlank` holds of a text that has no
  other.
- A code is recognised whatever the case of its ASCII letters (`sameCode`), with blank characters
  around it dropped (`ofCode?`). -/

/-- The characters of the Unicode property White_Space, as closed ranges of code points. Control
characters such as the horizontal tab are among them, the zero-width space is not. -/
def blankRanges : List (Nat × Nat) :=
  [(0x0009, 0x000D), (0x0020, 0x0020), (0x0085, 0x0085), (0x00A0, 0x00A0), (0x1680, 0x1680),
   (0x2000, 0x200A), (0x2028, 0x2029), (0x202F, 0x202F), (0x205F, 0x205F), (0x3000, 0x3000)]

/-- One of the characters that `trim` drops and `isBlank` looks past. -/
def isBlankChar (c : Char) : Bool :=
  blankRanges.any fun (low, high) => decide (low ≤ c.toNat) && decide (c.toNat ≤ high)

/-- Drops the blank characters at the end. -/
def trimEnd (cs : List Char) : List Char :=
  (cs.reverse.dropWhile isBlankChar).reverse

def trimChars (cs : List Char) : List Char :=
  trimEnd (cs.dropWhile isBlankChar)

/-- Drops the blank characters at both ends. -/
def trim (s : String) : String :=
  String.ofList (trimChars s.toList)

/-- Nothing is left of the text once it is trimmed. -/
def isBlank (s : String) : Bool :=
  (trimChars s.toList).isEmpty

/-- Equality that ignores the case of ASCII letters and of no others. Codes are written in ASCII, so
the letters of other scripts have to agree as they stand. -/
def sameCode (a b : String) : Bool :=
  a.toList.map Char.toLower == b.toList.map Char.toLower

/-- The first of `all` whose code is the given text, read without the blanks around it. The order of
`all` only matters where two codes differ in case alone, which no list of codes here has. -/
def ofCode? {α : Type} (all : List α) (code : α → String) (raw : String) : Option α :=
  all.find? fun a => sameCode (code a) (trim raw)

@[simp] theorem sameCode_refl (a : String) : sameCode a a = true := by simp [sameCode]

theorem isBlank_iff {s : String} : isBlank s = true ↔ trim s = "" := by
  rw [isBlank, trim, List.isEmpty_iff, ← String.toList_inj]
  simp

end PolicyDesk.Text

namespace PolicyDesk

/-! ## Reports

A rule that an input breaks is a `Violation` of one of its fields; a `Report` lists them in the
order in which the rules were checked, and is valid when it lists none. -/

/-- A broken rule and the field that breaks it. The field is a path such as `factors[0].score`, as a
reader of the submission would name it. -/
structure Violation where
  field : String
  message : String
  deriving DecidableEq, Repr

/-- The line that a violation takes in a log or in the message of a report. -/
def Violation.text (v : Violation) : String := v.field ++ ": " ++ v.message

/-- The outcome of a check: the broken rules, in the order of the check. -/
structure Report where
  violations : List Violation
  deriving DecidableEq, Repr

namespace Report

/-- The report of an input that breaks no rule. -/
def clean : Report := ⟨[]⟩

def valid (r : Report) : Bool := r.violations.isEmpty

def fields (r : Report) : List String := r.violations.map (·.field)

/-- The field must match as a whole: a violation of `factors[0].score` is none of `factors`. -/
def hasViolationOn (r : Report) (field : String) : Bool := r.violations.any (·.field == field)

/-- The report as one line: how many rules are broken, then each of them. -/
def message (r : Report) : String :=
  toString r.violations.length ++ " rule violation(s): " ++
    "; ".intercalate (r.violations.map Violation.text)

/-- A report that is not valid, as a failure. -/
def toExcept (r : Report) : Except Report Unit :=
  if r.valid then .ok () else .error r

/-- The single violation of a check that failed with a message, and none of one that passed. Checks
that go on after a failure are put together from such lists. -/
def note {ε β : Type} (field : String) (message : ε → String) : Except ε β → List Violation
  | .ok _ => []
  | .error e => [⟨field, message e⟩]

theorem note_eq_nil_iff {ε β : Type} {field : String} {message : ε → String} {r : Except ε β} :
    note field message r = [] ↔ ∃ b, r = .ok b := by
  cases r <;> simp [note]

end Report

end PolicyDesk
