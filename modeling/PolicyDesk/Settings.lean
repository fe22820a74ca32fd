import PolicyDesk.Decimal
import PolicyDesk.Evaluation

/-!
# Settings of the service

The settings that the service is started with, and the address that it listens on.
-/

namespace PolicyDesk

/-! ## Network addresses

- `Address.read?` reads an address of four decimal parts, or one of eight hexadecimal groups in
  which a double colon stands for a run of zero groups and the last two groups may be four decimal
  parts.
- `Address.text` writes the shortest usual form of it. -/

section

open Decimal (digit? ofDigits)

/-- An address: four bytes, or eight groups of sixteen bits. The numbers are in range when they come
from `Address.read?`. -/
inductive Address
  | v4 (parts : List Nat)
  | v6 (groups : List Nat)
  deriving DecidableEq, Repr

namespace Address

/-- What `localhost` stands for, without asking a resolver. -/
def loopback : Address := .v4 [127, 0, 0, 1]

/-! ### Reading -/

def hexDigit? (c : Char) : Option Nat :=
  if 'a' ≤ c.toLower ∧ c.toLower ≤ 'f' then some (c.toLower.toNat - 'a'.toNat + 10) else digit? c

/-- A decimal part: one to three digits up to 255, without a zero in front. A longer run of digits
is refused and not cut. -/
def readPart? (cs : List Char) : Option (Nat × List Char) :=
  let ds := (cs.takeWhile Decimal.isDigit).filterMap digit?
  let rest := cs.dropWhile Decimal.isDigit
  if ds.isEmpty ∨ 3 < ds.length ∨ (ds.head? = some 0 ∧ ds.length ≠ 1) ∨ 255 < ofDigits ds then none
  else some (ofDigits ds, rest)

/-- The rest after a given character. -/
def skip? (c : Char) : List Char → Option (List Char)
  | d :: cs => if c = d then some cs else none
  | [] => none

/-- Four decimal parts with points between them. -/
def readV4? (cs : List Char) : Option (List Nat × List Char) := do
  let (a, cs) ← readPart? cs
  let (b, cs) ← readPart? (← skip? '.' cs)
  let (c, cs) ← readPart? (← skip? '.' cs)
  let (d, cs) ← readPart? (← skip? '.' cs)
  return ([a, b, c, d], cs)

/-- A group: one to four hexadecimal digits. Zeros in front are allowed here, unlike in a decimal
part. -/
def readGroup? (cs : List Char) : Option (Nat × List Char) :=
  let isHex := fun c => (hexDigit? c).isSome
  let ds := (cs.takeWhile isHex).filterMap hexDigit?
  if ds.isEmpty ∨ 4 < ds.length then none
  else some (ds.foldl (fun n d => 16 * n + d) 0, cs.dropWhile isHex)

/-- Two groups from four decimal parts. -/
def pairUp : List Nat → List Nat
  | [a, b, c, d] => [a * 256 + b, c * 256 + d]
  | _ => []

/-- What a run of groups gave: the groups, whether the last two came as decimal parts, the rest.
After a decimal tail no further group may follow. -/
structure GroupRun where
  groups : List Nat
  decimalTail : Bool
  rest : List Char

/-- Reads at most so many groups, with colons between them; the last two may be decimal parts. A
colon without a group after it is left in the rest, where a double colon begins. -/
def readGroups (room : Nat) (first : Bool) (cs : List Char) : GroupRun :=
  match room with
  | 0 => ⟨[], false, cs⟩
  | room + 1 =>
    match (if first then some cs else skip? ':' cs) with
    | none => ⟨[], false, cs⟩
    | some after =>
      -- Decimal parts take the room of two groups and end the address.
      match (if room = 0 then none else readV4? after), readGroup? after with
      | some (parts, rest), _ => ⟨pairUp parts, true, rest⟩
      | none, none => ⟨[], false, cs⟩
      | none, some (group, rest) =>
        let run := readGroups room false rest
        { run with groups := group :: run.groups }

/-- Eight groups, of which a double colon may stand for one or more zeros. The groups after the
double colon have to leave room for at least one zero. -/
def readV6? (cs : List Char) : Option (List Nat × List Char) :=
  let head := readGroups 8 true cs
  if head.groups.length = 8 then some (head.groups, head.rest)
  else if head.decimalTail then none
  else do
    let cs ← skip? ':' (← skip? ':' head.rest)
    let tail := readGroups (7 - head.groups.length) true cs
    let gap := 8 - head.groups.length - tail.groups.length
    return (head.groups ++ List.replicate gap 0 ++ tail.groups, tail.rest)

/-- Reads a whole text as an address. Nothing may be left over. -/
def read? (s : String) : Option Address :=
  match readV4? s.toList with
  | some (parts, []) => some (.v4 parts)
  | _ =>
    match readV6? s.toList with
    | some (groups, []) => some (.v6 groups)
    | _ => none

/-! ### Writing -/

def partsText (parts : List Nat) : String :=
  ".".intercalate (parts.map fun n => String.ofList (Decimal.digits n))

def groupsText (groups : List Nat) : String :=
  ":".intercalate (groups.map fun n => String.ofList (Nat.toDigits 16 n))

/-- The length of the run of zeros at each place of a list of groups. The run is counted from its
place to the right. -/
def zeroRuns : List Nat → List Nat
  | [] => []
  | group :: groups =>
    let runs := zeroRuns groups
    (if group = 0 then runs.headD 0 + 1 else 0) :: runs

/-- The first of the longest runs of at least two zeros: where it starts and its length. A single
zero is written as a digit. -/
def longestZeros (groups : List Nat) : Option (Nat × Nat) :=
  let runs := zeroRuns groups
  let longest := runs.foldl max 0
  if longest < 2 then none else (runs.findIdx? (· = longest)).map (·, longest)

/-- Groups in their shortest form. An address that embeds one of four parts shows them in decimal.
-/
def v6Text (groups : List Nat) : String :=
  match groups with
  | [0, 0, 0, 0, 0, 0xFFFF, high, low] =>
    "::ffff:" ++ partsText [high / 256, high % 256, low / 256, low % 256]
  | _ =>
    match longestZeros groups with
    | some (start, length) =>
      groupsText (groups.take start) ++ "::" ++ groupsText (groups.drop (start + length))
    | none => groupsText groups

/-- The address and a port. Brackets keep the groups of an address apart from the port. -/
def textWithPort (a : Address) (port : Nat) : String :=
  let port := String.ofList (Decimal.digits port)
  match a with
  | v4 parts => partsText parts ++ ":" ++ port
  | v6 groups => "[" ++ v6Text groups ++ "]:" ++ port

end Address

end

/-! ## Settings

The settings of the service come from named variables, each with a default. A bad port is found
before a bad switch, and the switches are read in a fixed order. The host is only read when an
address is needed (`Settings.address`), and the log filter when logging starts
(`LogFilter.accepts`). -/

/-- The stage that a service runs in. It is read and kept, and no operation depends on it. -/
inductive Stage
  | development
  | test
  | production
  deriving DecidableEq, Repr

/-- A text without the blanks around it and in lower case. -/
def plainWord (raw : String) : String := (Text.trim raw).map Char.toLower

namespace Stage

/-- The stage that a text names; any other text means development. It cannot fail, so a misspelt
stage is no error. -/
def ofText (raw : String) : Stage :=
  let word := plainWord raw
  if word = "prod" ∨ word = "production" then .production
  else if word = "test" ∨ word = "ci" then .test
  else .development

def name : Stage → String
  | development => "Development"
  | test => "Test"
  | production => "Production"

end Stage

/-- A setting that cannot be used. The variables it is about are named in its message. -/
inductive SettingsError
  | invalidPort
  | invalidHost
  | invalidFlag (name value : String)
  deriving DecidableEq, Repr

namespace SettingsError

def message : SettingsError → String
  | invalidPort => "APP_PORT must be a valid u16"
  | invalidHost => "APP_HOST must parse to an IPv4 or IPv6 address"
  | invalidFlag name value => name ++ " must be true/false, found '" ++ value ++ "'"

/-- The error comes with a further cause: that of reading the address. -/
def hasCause : SettingsError → Bool
  | invalidHost => true
  | _ => false

end SettingsError

/-- What the service needs to know before it starts. -/
structure Settings where
  stage : Stage
  host : String
  port : Nat
  logLevel : String
  referHighRiskToCarrier : Bool
  escalateOnHighFactor : Bool
  deriving DecidableEq, Repr

/-- The value of a named variable, if it is set. -/
abbrev Variables := String → Option String

namespace Settings

def referVariable : String := "UW_REFER_HIGH_RISK_TO_CARRIER"

def escalateVariable : String := "UW_ESCALATE_HIGH_FACTORS"

/-- A switch, on by default. Blanks around the word and its case do not matter; the error shows the
text as it was given. -/
def readFlag (vars : Variables) (name : String) : Except SettingsError Bool :=
  match vars name with
  | none => .ok true
  | some raw =>
    let word := plainWord raw
    if word ∈ ["1", "true", "yes", "on"] then .ok true
    else if word ∈ ["0", "false", "no", "off"] then .ok false
    else .error (.invalidFlag name raw)

/-- The port of `APP_PORT`, 3000 when it is not set. Zero is allowed. -/
def readPort (vars : Variables) : Except SettingsError Nat :=
  match Decimal.readUnsignedInteger? 16 ((vars "APP_PORT").getD "3000") with
  | some port => .ok port
  | none => .error .invalidPort

/-- The settings that the variables ask for. The first fault found is the only one reported. -/
def load (vars : Variables) : Except SettingsError Settings := do
  let port ← readPort vars
  let refer ← readFlag vars referVariable
  let escalate ← readFlag vars escalateVariable
  return {
    stage := Stage.ofText ((vars "APP_ENV").getD "development")
    host := (vars "APP_HOST").getD "127.0.0.1"
    port := port
    logLevel := (vars "APP_LOG_LEVEL").getD "info"
    referHighRiskToCarrier := refer
    escalateOnHighFactor := escalate }

/-- The address to listen on, with the port. No name but `localhost` is looked up. -/
def address (s : Settings) : Except SettingsError String :=
  if Text.sameCode s.host "localhost" then .ok (Address.loopback.textWithPort s.port)
  else match Address.read? s.host with
    | some a => .ok (a.textWithPort s.port)
    | none => .error .invalidHost

/-- The evaluation settings: the usual weights and the two switches. -/
def evaluation (s : Settings) : EvaluationConfig Float :=
  ⟨.standard, s.referHighRiskToCarrier, s.escalateOnHighFactor⟩

end Settings

namespace LogFilter

def levels : List String := ["off", "error", "warn", "info", "debug", "trace"]

/-- A level by name, in any case, or by its number; an empty one means errors only. The number is
the place in `levels`. -/
def isLevel (s : String) : Bool :=
  s.isEmpty || levels.contains (s.map Char.toLower) || (match Decimal.readUnsignedInteger? 64 s with
    | some n => decide (n < levels.length)
    | none => false)

/-- A directive is a level or a target, or a target with a level. A target may be any text, so
nearly every filter is accepted. -/
def acceptsDirective (directive : String) : Bool :=
  match directive.splitOn "=" with
  | [_] => true
  | [_, level] => isLevel level
  | _ => false

/-- A filter is a list of directives with commas between them. -/
def accepts (filter : String) : Bool := (filter.splitOn ",").all acceptsDirective

end LogFilter

end PolicyDesk
