/-
# UiFormat.Cli.Run -- formatting the files of an invocation

Every target is read, formatted and then checked, written back or printed, in the
order given; a target that cannot be read or written ends the run, and so does a
fault.  What is said about a target goes to the error channel, one line a message.

A run does not reach for files itself.  It works on any `Host`, so that the same
run can be made on the files of a machine or on files held in memory.
-/
import UiFormat.Format
import UiFormat.LogLevel
import UiFormat.Cli.Fault
import UiFormat.Cli.Message

namespace UiFormat.Cli

open UiFormat.Text

set_option autoImplicit false

/-- Why a file cannot be used: the number of the failure and its wording. -/
structure FileFailure where
  code : Nat
  description : Text
  deriving DecidableEq, Repr

/-- The failure to use `path`. -/
def FileFailure.message (path : Text) (f : FileFailure) : Text :=
  "[Errno ".toList ++ ofNat f.code ++ "] ".toList ++ f.description ++ ": ".toList
    ++ escaped path

/-- What a run needs from its surroundings. -/
structure Host (m : Type → Type) where
  readInput : m Text
  readFile : Text → m (Except FileFailure Text)
  writeFile : (path text : Text) → m (Except FileFailure Unit)
  print : Text → m Unit
  report : Text → m Unit

/-- The settings that the environment makes. -/
structure Environment where
  logLevel : Option Text := none
  semicolonThreshold : Option Text := none
  deriving DecidableEq, Repr

/-! ## Targets -/

/-- A source to format: its name in messages, and its path unless it is read
from the standard input. -/
structure Target where
  name : Text
  path : Option Text
  deriving DecidableEq, Repr

/-- The name of the standard input. -/
def inputName : Text :=
  "<stdin>".toList

/-- The target a file argument stands for. -/
def Target.ofArgument (argument : Text) : Target :=
  { name := if argument.isEmpty then inputName else argument
    path := if argument = ['-'] then none else some argument }

namespace Invocation

/-- The targets of a run; without files, the standard input. -/
def targets (i : Invocation) : List Target :=
  if i.files.isEmpty then [{ name := inputName, path := none }]
  else i.files.map Target.ofArgument

/-- The language a target is read as. -/
def languageOf (i : Invocation) (t : Target) : Language :=
  (i.language.or (t.path.bind Language.ofPath?)).getD .ets

/-- The level from which messages are logged. -/
def logLevel (i : Invocation) (environment : Environment) : LogLevel :=
  LogLevel.choose (if i.verbose then some "DEBUG".toList else none) environment.logLevel

end Invocation

/-- What formatting one target leads to: messages, text to print, text to write
back, and whether a check found a difference. -/
structure Outcome where
  reports : List Text
  printed : Option Text := none
  written : Option Text := none
  differs : Bool := false

/-- The problems of a target, and why it was not formatted from its
declarations. -/
def diagnosticReports (name : Text) (f : Formatted) : List Text :=
  f.errors.map (fun d => name ++ [':'] ++ ofNat d.line ++ [':'] ++ ofNat d.column ++ ": ".toList
      ++ d.message)
    ++ if f.usedFallback then
        [name ++ ": formatted with basic rules (".toList
          ++ (f.reason.map Reason.name).getD "None".toList ++ [')']]
      else []

/-- The line logged about every target. -/
def debugReport (name : Text) (language : Language) (f : Formatted) : Text :=
  let word (b : Bool) : Text := if b then "True".toList else "False".toList
  name ++ ": language=".toList ++ language.name ++ " changed=".toList ++ word f.changed
    ++ " fallback=".toList ++ word f.usedFallback

/-- Formats the source of a target.  Where the invocation leaves semicolons open,
the habit of the source decides, by the threshold of the environment. -/
def Invocation.format (i : Invocation) (environment : Environment) (language : Language)
    (source : Text) : Formatted :=
  let threshold := Safety.thresholdOf environment.semicolonThreshold
  let semicolons := i.semicolons.getD (Safety.infersSemicolons threshold source)
  UiFormat.format language { i.options language with semicolons := some semicolons } source

/-- What is to be done about a target with a given source. -/
def Invocation.outcome (i : Invocation) (environment : Environment) (t : Target)
    (source : Text) : Outcome :=
  let language := i.languageOf t
  let f := i.format environment language source
  let logged := if (i.logLevel environment).severity ≤ LogLevel.debug.severity then
    [debugReport t.name language f] else []
  let reports := logged ++ if i.diagnostics then diagnosticReports t.name f else []
  if i.check then
    if f.changed then
      { reports := reports ++ ["would reformat ".toList ++ t.name], differs := true }
    else { reports }
  else if i.write && t.path.isSome then
    { reports, written := if f.changed then some f.text else none }
  else { reports, printed := some f.text }

/-! ## Runs -/

section Runs

variable {m : Type → Type} [Monad m]

/-- What is wrong with a target before it is read. -/
def Target.fault? (t : Target) : Option Fault :=
  t.path.bind pathFault?

/-- Reads the source of a target, or tells why it cannot. -/
def Host.read (host : Host m) (t : Target) : m (Except Text Text) := do
  match t.path with
  | none => return .ok (← host.readInput)
  | some path => return (← host.readFile path).mapError (·.message path)

/-- Writes text back to a target, or tells why it cannot. -/
def Host.write (host : Host m) (t : Target) (text : Text) : m (Except Text Unit) := do
  match t.path with
  | none => return .ok ()
  | some path => return (← host.writeFile path text).mapError (·.message path)

/-- Carries out what formatting a target led to, or tells why it cannot. -/
def Host.perform (host : Host m) (t : Target) (o : Outcome) : m (Except Text Unit) := do
  o.reports.forM fun message => host.report (messageLine message)
  o.printed.forM host.print
  match o.written with
  | none => return .ok ()
  | some text => host.write t text

/-- Ends a run because a target could not be used. -/
def Host.abandon (host : Host m) (verb : String) (t : Target) (failure : Text) : m Nat := do
  host.report (messageLine (programName ++ ": cannot ".toList ++ verb.toList ++ [' '] ++ t.name
    ++ ": ".toList ++ failure))
  return 2

/-- Formats targets in order and gives the exit code: 2 when one cannot be read
or written, 1 when a check found a difference.  A fault leaves no exit code. -/
def runTargets (host : Host m) (environment : Environment) (i : Invocation) (differs : Bool) :
    List Target → m (Except Fault Nat)
  | [] => return .ok (if differs then 1 else 0)
  | t :: rest => do
      if let some fault := t.fault? then return .error fault
      match ← host.read t with
      | .error failure => return .ok (← host.abandon "read" t failure)
      | .ok source =>
          if let some fault := i.fault? (i.languageOf t) source then return .error fault
          let o := i.outcome environment t source
          match ← host.perform t o with
          | .error failure => return .ok (← host.abandon "write" t failure)
          | .ok () => runTargets host environment i (differs || o.differs) rest

/-- Formats everything an invocation asks for and gives the exit code. -/
def Invocation.run (host : Host m) (environment : Environment) (i : Invocation) :
    m (Except Fault Nat) :=
  runTargets host environment i false i.targets

end Runs

end UiFormat.Cli
