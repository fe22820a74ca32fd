import PolicyDesk.Program

/-!
# The program

Reads the arguments and the variables of the environment, runs the command and prints its result. A
failure is reported on the error output with exit code 1, a misuse of the arguments with exit code
2. The program has no listener of its own: a service that is ready to listen ends with an error
that says so.
-/

namespace PolicyDesk.Program

def variableNames : List String :=
  ["APP_ENV", "APP_HOST", "APP_PORT", "APP_LOG_LEVEL", Settings.referVariable,
   Settings.escalateVariable]

/-- The variables of the service that are set. -/
def readVariables : IO Variables := do
  let read ← variableNames.mapM fun name => return (name, ← IO.getEnv name)
  return fun name => (read.find? (·.1 == name)).bind (·.2)

def usageText : String :=
  "Usage: policydesk [COMMAND]\n\n" ++
  "Commands:\n" ++
  "  serve     Start the HTTP service (default command) [--host <HOST>] [--port <PORT>]\n" ++
  "  classify  Classify a single risk score into its severity band --score <SCORE>\n" ++
  "  demo      Walk sample policies and a claim through the underwriting and claim workflows " ++
  "[--no-carrier-referral] [--skip-claims]\n" ++
  "  help      Print this message\n"

def versionText : String := "policydesk 0.1.0\n"

def fail (e : ProgramError) : IO UInt32 := do
  IO.eprintln ("application error: " ++ e.message)
  return 1

def runCommand (command : Command) : IO UInt32 := do
  match command.run (← readVariables) with
  | .ok (.printed text) =>
    IO.print text
    return 0
  | .ok (.serving setup) => fail (.io ("no listener for " ++ setup.address))
  | .error e => fail e

end PolicyDesk.Program

open PolicyDesk in
def main (args : List String) : IO UInt32 := do
  match Invocation.read args with
  | .run command => Program.runCommand command
  | .help =>
    IO.print Program.usageText
    return 0
  | .version =>
    IO.print Program.versionText
    return 0
  | .usage =>
    IO.eprint Program.usageText
    return 2
