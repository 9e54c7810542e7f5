import EndpointCatalog.CommandLine.Matching
import EndpointCatalog.Config.Overrides
import EndpointCatalog.Report.Render

/-! Invocations. A command line names at most one command and its options; the global
options may stand before the command, among its options, or in both places, and
then those among its options count. -/

namespace EndpointCatalog.CommandLine

structure ScanArguments where
  root : Option String
  directiveRoot : Option String
  suffix : Option String
  policy : Option RedirectPolicy
  batch : Bool
  lowercaseDirectives : Bool
  dryRun : Bool
  deriving DecidableEq, Repr

def ScanArguments.overrides (home : String) (a : ScanArguments) : Overrides where
  directiveRoot := a.directiveRoot.map (Path.expand home)
  fileSuffix := a.suffix
  batched := a.batch
  lowercaseDirectives := a.lowercaseDirectives
  policy := a.policy

inductive Command
  | init (force : Bool)
  | scan (arguments : ScanArguments)
  | add (folder controller : String) (urls : List String) (redirect : Option String)
  | list (format : Report.Format) (output : Option String)
  | sessions
  | menu
  deriving DecidableEq, Repr

structure Invocation where
  quiet : Bool
  verbose : Bool
  configDir : String
  command : Option Command
  deriving DecidableEq, Repr

def defaultConfigDir : String := "~/.config/ctrlscan/"

/-- The command of a name, with the options that were matched for it. -/
def Command.ofMatching (name : String) (m : Matching) : Option Command :=
  match name with
  | "init" => some (.init (m.has "force"))
  | "scan" => some (.scan {
      root := m.value? "ROOT"
      directiveRoot := m.value? "directive-root"
      suffix := m.value? "suffix"
      policy := (m.value? "redirect-policy").bind RedirectPolicy.ofName?
      batch := m.has "batch"
      lowercaseDirectives := m.has "lowercase-directives"
      dryRun := m.has "dry-run" })
  | "add" => some (.add ((m.value? "folder").getD "") ((m.value? "controller").getD "")
      (m.valuesOf "url") (m.value? "redirect"))
  | "list" =>
    some (.list (((m.value? "format").bind Report.Format.ofName?).getD .text) (m.value? "output"))
  | "sessions" => some .sessions
  | "menu" => some .menu
  | _ => none

/-- The arguments before a command name, the name, and the arguments behind it. A name
that is the value of an option or stands behind `--` is none. -/
def splitCommand (m : Matching) : List String → Except Refusal (Matching × Option (String × List String))
  | [] => .ok (m, none)
  | arg :: rest =>
    if m.trailing then
      if (arg = helpCommand ∨ (commands.lookup arg).isSome) then .error .unknownArgument
      else .error .invalidSubcommand
    else if !m.valueDue && (arg = helpCommand || (commands.lookup arg).isSome) then
      .ok (m, some (arg, rest))
    else do
      let m ← m.matchArgument topLevel .invalidSubcommand arg
      splitCommand m rest

/-- What `help` answers: help on the command it is given, if there is such a command. -/
def refuseHelp : List String → Refusal
  | [] => .displayHelp
  | [name] =>
    if name = helpCommand ∨ (commands.lookup name).isSome then .displayHelp
    else .invalidSubcommand
  | _ => .invalidSubcommand

def Invocation.of (top sub : Matching) (command : Option Command) : Invocation where
  quiet := top.has "quiet" || sub.has "quiet"
  verbose := top.has "verbose" || sub.has "verbose"
  configDir := ((sub.value? "config-dir").or (top.value? "config-dir")).getD defaultConfigDir
  command := command

/-- Reads the arguments behind the name of the program. -/
def parse (args : List String) : Except Refusal Invocation := do
  let (top, command) ← splitCommand .empty args
  match command with
  | none =>
    let top ← top.conclude topLevel
    return .of top .empty none
  | some (name, rest) =>
    if name = helpCommand then throw (refuseHelp rest)
    let sub ← Matching.run ((commands.lookup name).getD topLevel) rest
    let top ← top.conclude topLevel
    return .of top sub (Command.ofMatching name sub)

end EndpointCatalog.CommandLine
