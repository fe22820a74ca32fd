import PolicyDesk.Decimal
import PolicyDesk.Desk
import PolicyDesk.Http.Message
import PolicyDesk.Settings

/-!
# The program as a function

What the program makes of its arguments and of the variables, short of printing it.
-/

namespace PolicyDesk

/-! ## Failures of the program

Each failure has a cause with a text of its own; the message puts the part of the program in front
that met it. Rules that are broken are the caller's fault, everything else is the program's. -/

/-- It is the one kind of failure that ends a command. -/
inductive ProgramError
  | settings (cause : SettingsError)
  /-- The log level is no log filter. -/
  | logFilter (filter : String)
  | io (reason : String)
  | server (reason : String)
  | rules (report : Report)
  deriving DecidableEq, Repr

namespace ProgramError

/-- The part of the program that failed. -/
def part : ProgramError → String
  | settings _ => "configuration error"
  | logFilter _ => "telemetry error"
  | io _ => "io error"
  | server _ => "server error"
  | rules _ => "underwriting rules"

/-- What it met. -/
def cause : ProgramError → String
  | settings e => e.message
  | logFilter filter => "invalid log filter '" ++ filter ++ "' in APP_LOG_LEVEL"
  | io reason => reason
  | server reason => reason
  | rules report => report.message

/-- One line, as it is reported on the error output. -/
def message (e : ProgramError) : String := e.part ++ ": " ++ e.cause

/-- Only broken rules are told in full; they are the fault of the caller. -/
def response (e : ProgramError) : Http.Response :=
  match e with
  | rules report => .brokenRules e.message report
  | _ => .error 500 e.message

end ProgramError

/-! ## The command line

`Invocation.read` reads the arguments after the program's name, from left to right, and stops at the
first that asks for help, asks for the version or is a misuse.

- The first argument names a command; without one the service is started.
- An option is given at most once, its value after an equals sign or as the next argument. A next
  argument that begins with a hyphen is no value, unless it is the hyphen alone.
- A double hyphen ends the options, and no command takes anything else. -/

inductive Command
  | serve (host : Option String) (port : Option Nat)
  | classify (score : Float)
  | demo (keepInHouse skipClaims : Bool)
  deriving DecidableEq

/-- What the arguments ask for. -/
inductive Invocation
  | run (command : Command)
  | help
  | version
  /-- The arguments are misused. -/
  | usage
  deriving DecidableEq

namespace CommandLine

/-! ### Options -/

/-- An option: a switch, or one with a value of a kind. Its name is given without the two hyphens.
-/
structure Flag where
  name : String
  /-- Which values the option takes; a switch takes none. -/
  accepts : Option (String → Bool)

def switch (name : String) : Flag := ⟨name, none⟩

def valued {α : Type} (name : String) (read? : String → Option α) : Flag :=
  ⟨name, some fun value => (read? value).isSome⟩

/-- The options given and their values, the empty text for a switch. -/
abbrev Given := List (String × String)

/-- What the arguments of a command come to. Values are checked on the way and read once more when
the command is made. -/
inductive Scan
  | given (options : Given)
  | help
  | usage

/-- The text begins with a hyphen and goes on. -/
def isHyphenated (arg : String) : Bool := arg.startsWith "-" && arg != "-"

/-- The name and the value after the equals sign of an argument with two hyphens. There is no value
when there is no equals sign, and an empty one when nothing follows it. -/
def splitLong? (arg : String) : Option (String × Option String) :=
  match arg.toList with
  | '-' :: '-' :: cs =>
    let name := String.ofList (cs.takeWhile (· != '='))
    match cs.dropWhile (· != '=') with
    | '=' :: value => some (name, some (String.ofList value))
    | _ => some (name, none)
  | _ => none

/-- Takes in an option, once. A repetition is a misuse, even with the same value. -/
def give (options : Given) (name value : String) : Option Given :=
  if options.any (·.1 == name) then none else some (options ++ [(name, value)])

def scan (flags : List Flag) (options : Given) : List String → Scan
  | [] => .given options
  | ["--"] => .given options
  | arg :: rest =>
    if arg.startsWith "-h" || arg == "--help" then .help
    else
      match splitLong? arg with
      | none => .usage
      | some (name, attached) =>
        match flags.find? (·.name == name), attached, rest with
        | some ⟨_, none⟩, none, rest =>
          match give options name "" with
          | some options => scan flags options rest
          | none => .usage
        | some ⟨_, some accepts⟩, some value, rest =>
          match if accepts value then give options name value else none with
          | some options => scan flags options rest
          | none => .usage
        -- The value is the next argument, unless that looks like an option.
        | some ⟨_, some accepts⟩, none, value :: rest =>
          match if isHyphenated value || !accepts value then none else give options name value with
          | some options => scan flags options rest
          | none => .usage
        | _, _, _ => .usage

/-! ### Commands -/

/-- A whole number with an optional sign, from 0 to 65535. A minus sign may only stand before zero.
-/
def readPort? (s : String) : Option Nat :=
  let (negative, cs) := Decimal.splitSign s.toList
  match Decimal.splitDigits cs with
  | ([], _) => none
  | (ds, []) =>
    let n := Decimal.ofDigits ds
    if n < 65536 ∧ (negative → n = 0) then some n else none
  | _ => none

def flags : String → Option (List Flag)
  | "serve" => some [valued "host" some, valued "port" readPort?]
  | "classify" => some [valued "score" Decimal.read?]
  | "demo" => some [switch "no-carrier-referral", switch "skip-claims"]
  | _ => none

/-- The value of an option. -/
def value? (options : Given) (name : String) : Option String :=
  (options.find? (·.1 == name)).map (·.2)

/-- The command of a name with the options given. Only `classify` needs an option. -/
def command? (name : String) (options : Given) : Option Command :=
  match name with
  | "serve" =>
    some (.serve (value? options "host") ((value? options "port").bind readPort?))
  | "classify" => ((value? options "score").bind Decimal.read?).map .classify
  | "demo" =>
    some (.demo (value? options "no-carrier-referral").isSome
      (value? options "skip-claims").isSome)
  | _ => none

/-- Help on nothing in particular, on a command or on help itself. -/
def readTopic : List String → Invocation
  | [] => .help
  | [topic] => if topic == "help" || (flags topic).isSome then .help else .usage
  | _ => .usage

end CommandLine

open CommandLine in
/-- Reads the arguments after the program's name. Nothing is run here; help wins over a misuse that
comes later. -/
def Invocation.read : List String → Invocation
  | [] => .run (.serve none none)
  | ["--"] => .run (.serve none none)
  | "help" :: topic => readTopic topic
  | name :: args =>
    if name.startsWith "-h" || name == "--help" then .help
    else if name.startsWith "-V" || name == "--version" then .version
    else
      match flags name with
      | none => .usage
      | some flags =>
        match scan flags [] args with
        | .help => .help
        | .usage => .usage
        | .given options =>
          match command? name options with
          | some command => .run command
          | none => .usage

end PolicyDesk

namespace PolicyDesk.Demonstration

/-! ## Demonstration

A walk through the desk: four sample policies are submitted and evaluated, a broken submission and
a terse decline are refused, one policy is approved on a condition, and a claim is taken from its
report to its close. Every line is what the desk answered. -/

section

/-- A policy with its composite score and the scores of its factors, in the order of the kinds. The
composite score is declared and not computed from the factors. -/
structure SamplePolicy where
  policyId : PolicyId
  riskScore : Float
  factorScores : List Float

def samples : List SamplePolicy :=
  [⟨"POL-DEMO-001", 38.5, [35.0, 42.0, 40.0, 38.0]⟩,
   ⟨"POL-DEMO-002", 49.0, [88.0, 30.0, 25.0, 28.0]⟩,
   ⟨"POL-DEMO-003", 71.25, [72.0, 70.0, 68.0, 75.0]⟩,
   ⟨"POL-DEMO-004", 86.0, [90.0, 84.0, 82.0, 86.0]⟩]

def underwriter : String := "demo-underwriter"

variable (config : EvaluationConfig Float) (now : Instant)

def SamplePolicy.input (sample : SamplePolicy) : AssessmentInput Float where
  policyId := sample.policyId
  riskScore := sample.riskScore
  severity := none
  factors := (FactorType.all.zip sample.factorScores).map fun (kind, score) =>
    ⟨kind.code, score, config.factorWeights.get kind, none⟩
  assessedBy := underwriter
  assessmentDate := some now

/-- Submits and evaluates a sample. The reasons follow the outcome, indented. -/
def review (sample : SamplePolicy) : DeskM (List String) := do
  match ← (Underwriting.submit (sample.input config now) now).run with
  | .error e => return ["- " ++ sample.policyId ++ " rejected: " ++ e.message]
  | .ok file =>
    match ← (Underwriting.evaluate config file.policyId).run with
    | .ok outcome =>
      return ("- " ++ file.policyId ++ ": " ++ outcome.summary) ::
        outcome.reasons.map ("    - " ++ ·)
    | .error e => return ["- " ++ file.policyId ++ " evaluation unavailable: " ++ e.message]

/-- A sample with a score out of range and no factors. -/
def brokenInput (sample : SamplePolicy) : AssessmentInput Float :=
  { sample.input config now with policyId := "POL-DEMO-BAD", riskScore := 104.0, factors := [] }

/-- Submits the broken sample and lists what is wrong with it. Nothing is stored. -/
def refuseBroken (sample : SamplePolicy) : DeskM (List String) := do
  match ← (Underwriting.submit (brokenInput config now sample) now).run with
  | .error (.violations report) => return report.violations.map ("  - " ++ ·.text)
  | _ => return []

def terseDecline : ProposedDecision := ⟨"DECLINED", some "no", none⟩

def conditionalApproval : ProposedDecision where
  decision := "CONDITIONALLY_APPROVED"
  notes := some "Bind once the sprinkler certificate arrives"
  conditions := some ["Sprinkler inspection certificate"]

/-- Tries a terse decline, then approves on a condition. The first attempt leaves the file as it
was, so the second starts from the same status. -/
def decideOn (policyId : PolicyId) : DeskM (List String) := do
  let refusal ← match ← (Underwriting.decide policyId terseDecline underwriter now).run with
    | .ok _ => pure "- unexpected: terse decline accepted"
    | .error e => pure ("- terse decline refused: " ++ e.message)
  let approval ← match ← (Underwriting.decide policyId conditionalApproval underwriter now).run with
    | .ok file =>
      let view := file.statusView
      pure ("- " ++ view.policyId ++ " -> " ++ view.status.code ++ " (next: " ++
        ", ".intercalate view.allowedNext ++ ")")
    | .error e => pure ("- conditional approval failed: " ++ e.message)
  return [refusal, approval]

/-- The files that are still open, and how many referrals were sent. A queue that cannot be read
counts as empty. -/
def overview : DeskM (List String) := do
  let waiting : ExceptT UnderwritingError DeskM (List UnderwritingFile) := Underwriting.queue 10
  let files ← match ← waiting.run with
    | .ok files => pure files
    | .error _ => pure []
  let desk ← get
  return ["", "Open underwriting queue (" ++ toString files.length ++ " files)"] ++
    files.map (fun f => "- " ++ f.policyId ++ " [" ++ f.status.code ++ "]") ++
    ["Carrier referrals sent: " ++ toString desk.referrals.length]

/-- Moves a claim along a path until a move fails. The moves made up to then stand. -/
def follow (claimId : ClaimId) : List ClaimStatus → DeskM (List String)
  | [] => return []
  | status :: path => do
    match ← (Claims.transition claimId ⟨status, none⟩ now).run with
    | .ok claim =>
      return ("- " ++ claim.claimId ++ " -> " ++ claim.status.code) :: (← follow claimId path)
    | .error e => return ["- transition failed: " ++ e.message]

/-- The way of a claim that is paid. -/
def paidPath : List ClaimStatus := [.underReview, .approved, .inPayment, .paid, .closed]

def lossReport : OpenClaim := ⟨"POL-DEMO-001", "Burst pipe in warehouse"⟩

/-- Opens a claim, tries a shortcut and follows the way of a claim that is paid. The shortcut is
refused and leaves no trace in the history. -/
def handleClaim : DeskM (List String) := do
  let title := ["", "Claim lifecycle"]
  match ← (Claims.openClaim lossReport : ExceptT ClaimError DeskM Claim).run with
  | .error e => return title ++ ["- claim intake failed: " ++ e.message]
  | .ok claim =>
    -- A new claim cannot be paid, so this is refused.
    let shortcut ← match ← (Claims.transition claim.claimId ⟨.paid, none⟩ now).run with
      | .ok _ => pure []
      | .error e => pure ["- shortcut refused: " ++ e.message]
    let steps ← follow now claim.claimId paidPath
    let opening := "- opened " ++ claim.claimId ++ " as " ++ claim.status.code
    return title ++ [opening] ++ shortcut ++ steps

/-- The whole walk, a line at a time. Each part starts from the desk that the one before it left. -/
def walk (skipClaims : Bool) : DeskM (List String) := do
  let reviews ← samples.mapM (review config now)
  let broken ← (samples.take 1).mapM (refuseBroken config now)
  let decisions ← decideOn now "POL-DEMO-003"
  let queue ← overview
  let claims ← if skipClaims then pure [] else handleClaim now
  return ["Underwriting rules demo"] ++ reviews.flatten ++
    ["", "Rule checks on a rejected submission"] ++ broken.flatten ++
    ["", "Underwriter decisions"] ++ decisions ++ queue ++ claims

/-- When the walk takes place; no line shows it. -/
def date : Instant := ⟨1767225600, 0⟩

/-- The lines of the walk over an empty desk, with a carrier that accepts every referral. The lines
are the same on every run. -/
def lines (keepInHouse skipClaims : Bool) : List String :=
  let config := { EvaluationConfig.standard with referHighRiskToCarrier := !keepInHouse }
  (((walk config date skipClaims).run (.ok ())).run Desk.empty).run.1

end

end PolicyDesk.Demonstration

namespace PolicyDesk

/-! ## Running a command

What a command comes to, as a pure function of the variables: a text to print, a service
that is ready to listen, or a failure. -/

/-- A service whose settings are in order. -/
structure ServiceSetup where
  settings : Settings
  /-- The address to listen on, with the port. -/
  address : String
  deriving DecidableEq, Repr

/-- What a command comes to. -/
inductive CommandResult
  | printed (text : String)
  | serving (setup : ServiceSetup)
  deriving DecidableEq, Repr

namespace Command

/-- The settings of the service: the variables, then what the command line puts in their place. The
variables are read first, then the log filter, then the address. The command line wins over the
variables, yet a bad variable is an error all the same. -/
def prepare (vars : Variables) (host : Option String) (port : Option Nat) :
    Except ProgramError ServiceSetup := do
  let loaded ← (Settings.load vars).mapError .settings
  let settings := { loaded with host := host.getD loaded.host, port := port.getD loaded.port }
  if !LogFilter.accepts settings.logLevel then throw (.logFilter settings.logLevel)
  let address ← settings.address.mapError .settings
  return ⟨settings, address⟩

/-- The band of a score, in a line. A number that is no score is reported as a broken rule. -/
def classification (x : Float) : Except ProgramError String :=
  match Score.ofValue x with
  | .ok score =>
    .ok (score.text ++ " -> " ++ score.severity.code ++ " (" ++ score.severity.label ++ " risk)")
  | .error e => .error (.rules ⟨[⟨"score", e.message⟩]⟩)

/-- Lines, each with a line end. -/
def printLines (lines : List String) : CommandResult :=
  .printed (String.join (lines.map (· ++ "\n")))

/-- Runs a command. It reads nothing but the variables and prints nothing. -/
def run (vars : Variables) : Command → Except ProgramError CommandResult
  | serve host port => (prepare vars host port).map .serving
  | classify x => (classification x).map fun line => printLines [line]
  | demo keepInHouse skipClaims =>
    .ok (printLines (Demonstration.lines keepInHouse skipClaims))

end Command

end PolicyDesk
