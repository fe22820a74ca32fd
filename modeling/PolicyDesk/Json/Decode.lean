import PolicyDesk.Json
import PolicyDesk.Score
import PolicyDesk.Text
import PolicyDesk.Time

/-!
# Decoding JSON values

A decoder makes a value of the desk out of a JSON value or says why it cannot: the JSON value has
another shape, or the value it describes breaks a rule of the desk (`DecodeError`).

A record is described by a `Shape`: its fields in order, each required, defaulted or optional.

- As an object its members are taken in the order of the text. A repeated field is an error, and an
  unknown one is skipped.
- As an array its items are the fields in order; fields at the end that have a default may be
  missing.
-/

namespace PolicyDesk

/-- Why a JSON value cannot be decoded. A rule of the desk is kept with its own report, so that a
caller can be told which. -/
inductive DecodeError
  | malformed
  | score (refusal : ScoreOutOfRange Float)
  | rules (report : Report)

/-- The rule of the desk that the value breaks. Nothing for a value of another shape: what is said
there is not up to the desk. -/
def DecodeError.message? : DecodeError → Option String
  | malformed => none
  | score refusal => some refusal.message
  | rules report => some report.message

/-- A decoder reads one value and knows nothing of the text around it. -/
abbrev Decoder (α : Type) := Json → Except DecodeError α

namespace Decoder

/-- A value or nothing, as a decoder's result. -/
def ofOption {α : Type} : Option α → Except DecodeError α
  | some a => .ok a
  | none => .error .malformed

def text : Decoder String
  | .str s => .ok s
  | _ => .error .malformed

def bool : Decoder Bool
  | .bool b => .ok b
  | _ => .error .malformed

/-- Any number that is not too large; a natural number becomes the nearest double. -/
def float : Decoder Float
  | .num (.natural n) => .ok n.toFloat
  | .num (.real x) => .ok x
  | _ => .error .malformed

def uint64 : Decoder UInt64
  | .num (.natural n) => .ok n
  | _ => .error .malformed

def instant : Decoder Instant
  | .str s => ofOption (Instant.read? s)
  | _ => .error .malformed

/-- A value or null. A member that is missing altogether is for the shape to allow
(`Shape.optional`). -/
def orNull {α : Type} (decode : Decoder α) : Decoder (Option α)
  | .null => .ok none
  | json => (decode json).map some

/-- The first item that fails decides the error. -/
def list {α : Type} (decode : Decoder α) : Decoder (List α)
  | .arr items => items.mapM decode
  | _ => .error .malformed

/-- One of a list of codes, exactly; also as the only member of an object, with the value null.
Other spellings, which `Text.ofCode?` takes from a submission, are refused here. -/
def code {α : Type} (all : List α) (code : α → String) : Decoder α
  | .str s => ofOption (all.find? fun a => code a == s)
  | .obj [(some s, .null)] => ofOption (all.find? fun a => code a == s)
  | _ => .error .malformed

/-- An object whose names are codes; of a repeated code the last value counts. Every name and value
is decoded in the order of the text, also those that a later one replaces. -/
def codeMap {κ α : Type} [DecidableEq κ] (all : List κ) (code : κ → String) (decode : Decoder α) :
    Decoder (κ → Option α)
  | .obj members => members.foldlM (fun map member => do
      let name ← ofOption member.1
      let key ← ofOption (all.find? fun k => code k == name)
      let value ← decode member.2
      return fun k => if k = key then some value else map k) (fun _ => none)
  | _ => .error .malformed

end Decoder

/-- The fields of a record `α`, in order. While an object is read, `σ` holds what was read so far.
-/
structure Shape (σ α : Type) where
  start : σ
  /-- Takes in a member; nothing when the record has no field of the name. -/
  member : String → Json → σ → Option (Except DecodeError σ)
  /-- The record, once all members are read. -/
  finish : σ → Except DecodeError α
  /-- Takes the fields off the front of the items of an array. -/
  items : List Json → Except DecodeError (α × List Json)

namespace Shape

variable {σ α β : Type}

/-- A record without fields yet. The fields are added to it one after the other, with `required`,
`defaulted` and `optional`. -/
def of (a : α) : Shape Unit α where
  start := ()
  member _ _ _ := none
  finish _ := .ok a
  items js := .ok (a, js)

/-- The next field: `absent` stands for it when it is missing. A member is offered to the fields
before it first, so each name belongs to one field. -/
def field (s : Shape σ (α → β)) (name : String) (absent : Except DecodeError α)
    (decode : Decoder α) : Shape (σ × Option α) β where
  start := (s.start, none)
  member k json read :=
    match s.member k json read.1 with
    | some result => some (result.map (·, read.2))
    | none =>
      -- A member that is given twice is refused.
      if k = name then
        some (match read.2 with
          | some _ => .error .malformed
          | none => (decode json).map fun a => (read.1, some a))
      else none
  finish read := do
    let f ← s.finish read.1
    match read.2 with
    | some a => return f a
    | none => return f (← absent)
  items js := do
    let (f, js) ← s.items js
    match js with
    | json :: js => return (f (← decode json), js)
    | [] => return (f (← absent), [])

/-- A field that must be there. Its absence is only noticed when all members are read. -/
def required (s : Shape σ (α → β)) (name : String) (decode : Decoder α) :
    Shape (σ × Option α) β :=
  s.field name (.error .malformed) decode

/-- A field with a default. A null is no absence and must decode like any other value. -/
def defaulted (s : Shape σ (α → β)) (name : String) (absent : α) (decode : Decoder α) :
    Shape (σ × Option α) β :=
  s.field name (.ok absent) decode

/-- A field that may be missing or null. -/
def optional (s : Shape σ (Option α → β)) (name : String) (decode : Decoder α) :
    Shape (σ × Option (Option α)) β :=
  s.field name (.ok none) (Decoder.orNull decode)

/-- Takes in the next member of an object. A name that the text does not hold in full is an error,
whatever the value under it. -/
def step (s : Shape σ α) (read : σ) (entry : Option String × Json) : Except DecodeError σ :=
  match entry.1 with
  | none => .error .malformed
  | some name =>
    match s.member name entry.2 read with
    | some result => result
    | none => if entry.2.whole then .ok read else .error .malformed

/-- The record of an object or of an array. An array must have no items left over, while an object
may have other members. -/
def decode (s : Shape σ α) : Decoder α
  | .obj members => do s.finish (← members.foldlM s.step s.start)
  | .arr items => do
    match ← s.items items with
    | (a, []) => return a
    | _ => throw .malformed
  | _ => .error .malformed

end Shape

end PolicyDesk
