import PolicyDesk.Decimal

/-!
# JSON

JSON values, the reader that makes one of a text, and the printer. What a value is good for is
decided elsewhere, by the decoder that it is given to.
-/

namespace PolicyDesk

/-! ## Values

A value as it is read from a text or is to be written to one.

- A number is a natural number of 64 bits, a double, or too large for a double (`JsonNumber`).
- A string with an unpaired surrogate names no text; it can be skipped and not used (`unpaired`,
  and a member without a name).
- `broken` stands where a text stops being JSON; nothing follows it.

Members keep their order and their repetitions, since a repeated field is an error where it is used
and none where it is skipped. -/

/-- A number as it is read. The three kinds are kept apart because a count may only be `natural`,
while a score takes either of the first two. -/
inductive JsonNumber
  | natural (n : UInt64)
  | real (x : Float)
  | excessive
  deriving DecidableEq

/-- A value as it is read or written. Two objects with the same members in another order are
different values. -/
inductive Json
  | null
  | bool (b : Bool)
  | num (n : JsonNumber)
  | str (s : String)
  | unpaired
  | arr (items : List Json)
  | obj (members : List (Option String × Json))
  | broken

namespace Json

/-- A double; one that is not finite has no JSON form and is written as null. -/
def ofFloat (x : Float) : Json := if x.isFinite then .num (.real x) else .null

def ofUInt64 (n : UInt64) : Json := .num (.natural n)

/-- A count below `2 ^ 64`. Counts are lengths of lists, which stay below that. -/
def ofCount (n : Nat) : Json := .num (.natural n.toUInt64)

def ofStrings (ss : List String) : Json := .arr (ss.map .str)

/-- An object of named members. -/
def record (members : List (String × Json)) : Json :=
  .obj (members.map fun (name, value) => (some name, value))

/-- A member that is written only when there is a value. A reader takes its absence for nothing. -/
def member? {α : Type} (name : String) (write : α → Json) : Option α → List (String × Json)
  | some a => [(name, write a)]
  | none => []

/-- A value, or null. Unlike `member?` it keeps its place in the record. -/
def orNull {α : Type} (write : α → Json) : Option α → Json
  | some a => write a
  | none => .null

/-! ### Skipped values -/

mutual

/-- The value is JSON to its end, whatever its texts and numbers stand for. A member with an unknown
name is held to this and to no more. -/
def whole : Json → Bool
  | broken => false
  | arr items => wholeItems items
  | obj members => wholeMembers members
  | _ => true

def wholeItems : List Json → Bool
  | [] => true
  | item :: items => whole item && wholeItems items

def wholeMembers : List (Option String × Json) → Bool
  | [] => true
  | (_, value) :: members => whole value && wholeMembers members

end

/-- The greatest depth of nesting at which a value can be read. -/
def maxDepth : Nat := 127

mutual

/-- The value is JSON to its end, every text and number in it stands for something, and at most
`room` arrays and objects are nested in it. A member that is put aside and read later
has to pass it. -/
def readable (room : Nat) : Json → Bool
  | broken => false
  | unpaired => false
  | num .excessive => false
  | arr items => decide (0 < room) && readableItems (room - 1) items
  | obj members => decide (0 < room) && readableMembers (room - 1) members
  | _ => true

def readableItems (room : Nat) : List Json → Bool
  | [] => true
  | item :: items => readable room item && readableItems room items

def readableMembers (room : Nat) : List (Option String × Json) → Bool
  | [] => true
  | (name, value) :: members =>
    name.isSome && readable room value && readableMembers room members

end

end Json

end PolicyDesk

namespace PolicyDesk.Json

/-! ## Reading JSON

`Json.read` reads the first value of a text and gives it with the rest of the text. Where the text
stops being JSON the value holds `broken` and there is no rest; what was read before is kept, so
that a reader of the value meets the errors of a text in the order in which they stand in it. -/

section

open Decimal (splitDigits ofDigits readExponent? Written)

/-- What was read, and the rest of the text unless it broke off. A rest of `none` means that no
later part of the text is looked at. -/
abbrev Reading (α : Type) := α × Option (List Char)

def isSpace (c : Char) : Bool := c = ' ' || c = '\n' || c = '\t' || c = '\r'

def skipSpace (cs : List Char) : List Char := cs.dropWhile isSpace

/-! ### Strings -/

def hexDigit? (c : Char) : Option Nat :=
  if '0' ≤ c ∧ c ≤ '9' then some (c.toNat - '0'.toNat)
  else if 'a' ≤ c ∧ c ≤ 'f' then some (c.toNat - 'a'.toNat + 10)
  else if 'A' ≤ c ∧ c ≤ 'F' then some (c.toNat - 'A'.toNat + 10)
  else none

/-- The code unit that four hexadecimal digits write, and the rest. Upper and lower case of the
digits may be mixed. -/
def unit? : List Char → Option (Nat × List Char)
  | a :: b :: c :: d :: rest => do
    let a ← hexDigit? a
    let b ← hexDigit? b
    let c ← hexDigit? c
    let d ← hexDigit? d
    return (((a * 16 + b) * 16 + c) * 16 + d, rest)
  | _ => none

theorem unit?_length {cs rest : List Char} {u : Nat} (h : unit? cs = some (u, rest)) :
    rest.length + 4 = cs.length := by
  match cs with
  | a :: b :: c :: d :: tail =>
    simp only [unit?, Option.bind_eq_bind, Option.bind_eq_some_iff] at h
    obtain ⟨_, _, _, _, _, _, _, _, heq⟩ := h
    cases heq
    simp
  | [] => simp [unit?] at h
  | [_] => simp [unit?] at h
  | [_, _] => simp [unit?] at h
  | [_, _, _] => simp [unit?] at h

def isHighSurrogate (u : Nat) : Bool := decide (0xD800 ≤ u) && decide (u < 0xDC00)

def isLowSurrogate (u : Nat) : Bool := decide (0xDC00 ≤ u) && decide (u < 0xE000)

/-- The character of a pair of surrogates. Every pair gives a character beyond the first plane, so
`Char.ofNat` meets no gap. -/
def pairedChar (high low : Nat) : Char :=
  Char.ofNat (0x10000 + (high - 0xD800) * 0x400 + (low - 0xDC00))

/-- The character of a one-letter escape. -/
def escaped? : Char → Option Char
  | '"' => some '"'
  | '\\' => some '\\'
  | '/' => some '/'
  | 'b' => some '\x08'
  | 'f' => some '\x0c'
  | 'n' => some '\n'
  | 'r' => some '\r'
  | 't' => some '\t'
  | _ => none

/-- The low surrogate that an escape at the head of the text writes, and the rest. Anything else at
the head leaves the high surrogate before it unpaired. -/
def lowSurrogate? : List Char → Option (Nat × List Char)
  | '\\' :: 'u' :: cs =>
    match unit? cs with
    | some (low, rest) => if isLowSurrogate low then some (low, rest) else none
    | none => none
  | _ => none

theorem lowSurrogate?_length {cs rest : List Char} {u : Nat}
    (h : lowSurrogate? cs = some (u, rest)) : rest.length < cs.length := by
  unfold lowSurrogate? at h
  split at h
  · split at h
    · next heq =>
      split at h
      · cases h
        have := unit?_length heq
        simp only [List.length_cons]
        omega
      · cases h
    · cases h
  · cases h

/-- Reads the characters of a string up to the closing quote. `paired` is lost at an unpaired
surrogate, and the text with it; a string that does not end, or holds a control character or an
escape that there is not, gives nothing. -/
def readString (paired : Bool) (read : List Char) (cs : List Char) :
    Option (Option String × List Char) :=
  match cs with
  | [] => none
  | '"' :: rest => some (if paired then some (String.ofList read.reverse) else none, rest)
  | '\\' :: 'u' :: tail =>
    match _h : unit? tail with
    | none => none
    | some (u, rest) =>
      -- A high surrogate asks for a low one right after it, escaped as well.
      if isHighSurrogate u then
        match _hlow : lowSurrogate? rest with
        | some (low, rest) => readString paired (pairedChar u low :: read) rest
        | none => readString false read rest
      else if isLowSurrogate u then readString false read rest
      else readString paired (Char.ofNat u :: read) rest
  | '\\' :: c :: rest =>
    match escaped? c with
    | some e => readString paired (e :: read) rest
    | none => none
  | c :: rest => if c.toNat < 0x20 ∨ c = '\\' then none else readString paired (c :: read) rest
termination_by cs.length
decreasing_by
  all_goals simp only [List.length_cons]
  all_goals first
    | (have h4 := unit?_length _h; have hl := lowSurrogate?_length _hlow; omega)
    | (have h4 := unit?_length _h; omega)
    | omega

/-! ### Numbers -/

/-- The number that a whole number without fraction and exponent stands for, when its digits fit in
64 bits: a natural number, or the double of a negative one. A negative zero is a double, as is every
negative number. -/
def integer? (negative : Bool) (ds : List Nat) : Option JsonNumber :=
  let n := ofDigits ds
  if n < UInt64.size then
    some (if negative then .real (-n.toUInt64.toFloat) else .natural n.toUInt64)
  else none

/-- The number that a decimal stands for. A number too small for a double is zero and no error. -/
def ofWritten (w : Written) : JsonNumber :=
  match w.scaled? with
  | some x => .real x
  | none => .excessive

/-- The digits after a point, at least one, if there is a point. -/
def readFraction? : List Char → Option (List Nat × List Char)
  | '.' :: cs =>
    match splitDigits cs with
    | ([], _) => none
    | read => some read
  | cs => some ([], cs)

/-- The exponent, if there is one. -/
def readPower? : List Char → Option (Option Int × List Char)
  | c :: cs =>
    if c = 'e' ∨ c = 'E' then
      (readExponent? cs).map fun (e, rest) => (some e, rest)
    else some (none, c :: cs)
  | [] => some (none, [])

/-- Reads a number after its sign: no zero in front of other digits, and digits on both sides of a
point. Whole numbers beyond 64 bits fall back to a double. -/
def readNumber? (negative : Bool) (cs : List Char) : Option (JsonNumber × List Char) := do
  let (whole, cs) := splitDigits cs
  if whole.isEmpty ∨ (whole.head? = some 0 ∧ whole.length ≠ 1) then none
  else
    let (fraction, cs) ← readFraction? cs
    let (power, cs) ← readPower? cs
    let written : Written := ⟨negative, whole, fraction, power.getD 0⟩
    let plain := if fraction.isEmpty ∧ power.isNone then integer? negative whole else none
    return (plain.getD (ofWritten written), cs)

/-! ### Values -/

/-- The value of a word, and the rest after it. A word that goes wrong at any letter breaks the text
off. -/
def readWord (word : String) (value : Json) (cs : List Char) : Reading Json :=
  if cs.take word.length = word.toList then (value, some (cs.drop word.length))
  else (.broken, none)

def ofNumber : Option (JsonNumber × List Char) → Reading Json
  | some (n, rest) => (.num n, some rest)
  | none => (.broken, none)

def ofString : Option (Option String × List Char) → Reading Json
  | some (some s, rest) => (.str s, some rest)
  | some (none, rest) => (.unpaired, some rest)
  | none => (.broken, none)

mutual

/-- Reads a value. The fuel bounds the characters that may be read. Each step takes one character or
passes on with a smaller fuel, so a text never exhausts what `read` gives it. -/
def readValue : Nat → List Char → Reading Json
  | 0, _ => (.broken, none)
  | fuel + 1, cs =>
    match skipSpace cs with
    | '{' :: rest =>
      match skipSpace rest with
      | '}' :: rest => (.obj [], some rest)
      | rest =>
        let (members, rest) := readMembers fuel rest
        (.obj members, rest)
    | '[' :: rest =>
      match skipSpace rest with
      | ']' :: rest => (.arr [], some rest)
      | rest =>
        let (items, rest) := readItems fuel rest
        (.arr items, rest)
    | '"' :: rest => ofString (readString true [] rest)
    | '-' :: rest => ofNumber (readNumber? true rest)
    | 't' :: rest => readWord "true" (.bool true) ('t' :: rest)
    | 'f' :: rest => readWord "false" (.bool false) ('f' :: rest)
    | 'n' :: rest => readWord "null" .null ('n' :: rest)
    | rest => ofNumber (readNumber? false rest)

/-- Reads the items of an array, of which there is at least one, and the closing bracket. -/
def readItems : Nat → List Char → Reading (List Json)
  | 0, _ => ([.broken], none)
  | fuel + 1, cs =>
    match readValue fuel cs with
    | (item, none) => ([item], none)
    | (item, some rest) =>
      match skipSpace rest with
      | ',' :: rest =>
        let (items, rest) := readItems fuel rest
        (item :: items, rest)
      | ']' :: rest => ([item], some rest)
      | _ => ([item, .broken], none)

/-- Reads the members of an object, of which there is at least one, and the closing brace. -/
def readMembers : Nat → List Char → Reading (List (Option String × Json))
  | 0, _ => ([(none, .broken)], none)
  | fuel + 1, cs =>
    match skipSpace cs with
    | '"' :: rest =>
      match readString true [] rest with
      | none => ([(none, .broken)], none)
      | some (name, rest) =>
        match skipSpace rest with
        | ':' :: rest =>
          match readValue fuel rest with
          -- What breaks off inside the value breaks the object off.
          | (value, none) => ([(name, value)], none)
          | (value, some rest) =>
            match skipSpace rest with
            | ',' :: rest =>
              let (members, rest) := readMembers fuel rest
              ((name, value) :: members, rest)
            | '}' :: rest => ([(name, value)], some rest)
            | _ => ([(name, value), (none, .broken)], none)
        | _ => ([(name, .broken)], none)
    | _ => ([(none, .broken)], none)

end

/-- Reads the first value of a text. A value takes at most two steps for each character, which the
fuel allows for. -/
def read (text : String) : Reading Json :=
  let cs := text.toList
  readValue (2 * cs.length + 2) cs

/-- Nothing but blanks is left of a text. -/
def atEnd : Option (List Char) → Bool
  | some rest => rest.all isSpace
  | none => false

end

/-! ## Writing JSON

`Json.text` writes a value without blanks. What no JSON text holds is written as null. -/

def hexChar (n : Nat) : Char := (Nat.toDigits 16 n).headD '0'

/-- A character inside a string. Only the characters that may not stand bare in a string are
escaped. -/
def escapeChar (c : Char) : List Char :=
  match c with
  | '"' => ['\\', '"']
  | '\\' => ['\\', '\\']
  | '\n' => ['\\', 'n']
  | '\r' => ['\\', 'r']
  | '\t' => ['\\', 't']
  | '\x08' => ['\\', 'b']
  | '\x0c' => ['\\', 'f']
  | c =>
    if c.toNat < 0x20 then ['\\', 'u', '0', '0', hexChar (c.toNat / 16), hexChar (c.toNat % 16)]
    else [c]

def quoted (s : String) : String :=
  "\"" ++ String.ofList (s.toList.flatMap escapeChar) ++ "\""

def numberText : JsonNumber → String
  | .natural n => toString n.toNat
  | .real x => Decimal.scientific x
  | .excessive => "null"

mutual

def text : Json → String
  | null => "null"
  | bool true => "true"
  | bool false => "false"
  | num n => numberText n
  | str s => quoted s
  | arr items => "[" ++ itemsText items ++ "]"
  | obj members => "\x7b" ++ membersText members ++ "\x7d"
  | unpaired => "null"
  | broken => "null"

def itemsText : List Json → String
  | [] => ""
  | [item] => text item
  | item :: items => text item ++ "," ++ itemsText items

def membersText : List (Option String × Json) → String
  | [] => ""
  | [(name, value)] => quoted (name.getD "") ++ ":" ++ text value
  | (name, value) :: members =>
    quoted (name.getD "") ++ ":" ++ text value ++ "," ++ membersText members

end

end PolicyDesk.Json
