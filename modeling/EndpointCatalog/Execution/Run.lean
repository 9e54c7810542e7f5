import EndpointCatalog.Execution.Commands
import EndpointCatalog.Menu.Run

/-! The run of a command. It goes as far as it can without input; after that it has
ended, or waits for an answer to the question of a setup, or is in the menu. -/

namespace EndpointCatalog.Execution

open CommandLine (Command Invocation Refusal)
open Terminal

def logo : String :=
  "\n   ___ _        _\n" ++
  "  / __| |_ _ _| |___ __ __ _ _ _\n" ++
  " | (__|  _| \x27_| (_-</ _/ _\x60 | \x27 \\\n" ++
  "  \\___|\\__|_| |_/__/\\__\\__,_|_||_|\n"

def banner (env : Environment) : String :=
  paint env.color Style.brightCyan.bold logo ++ "\n" ++
    "  " ++ bright env "controller endpoint catalog" ++ " " ++
    paint env.color .brightBlack ("v" ++ version) ++ "\n\n"

/-- How far a command gets without input. -/
inductive Stage (sqlite : Sqlite)
  | ended
  | asking (dir : Path)
  | inMenu (m : Menu.Setting) (conn : Connection sqlite)

/-- Opens the menu with the defaults of the configuration. -/
def openMenu (env : Environment) (dir : Path) (c : Config) : Work (Stage env.sqlite) := do
  let conn ← openCatalog env dir
  let m : Menu.Setting := ⟨conn.tree, env.home, env.now, env.later, env.color,
    c.scanOptionsWith env.home .nothing, c.scanRoot env.home none⟩
  return .inMenu m conn

/-- Starts a command in a configuration folder. -/
def startCommand (env : Environment) (dir : Path) : Command → Work (Stage env.sqlite)
  | .init force => do
    return if ← Setup.start env dir force then .asking dir else .ended
  | .scan a => do
    scan env dir (← loadConfig dir) a
    return .ended
  | .add folder controller urls redirect => do
    let _ ← loadConfig dir
    add env dir folder controller urls redirect
    return .ended
  | .list format output => do
    let _ ← loadConfig dir
    list env dir format output
    return .ended
  | .sessions => do
    let _ ← loadConfig dir
    sessions env dir
    return .ended
  | .menu => do openMenu env dir (← loadConfig dir)

def start (env : Environment) (i : Invocation) : Work (Stage env.sqlite) := do
  if !i.quiet then Work.print (banner env)
  match i.command with
  | none => return .ended
  | some c => startCommand env (Path.expand env.home i.configDir) c

/-- Goes on from a stage with all of the input. -/
def Stage.finish (env : Environment) (input : Text.Input) : Stage env.sqlite → Work Unit
  | ended => pure ()
  | asking dir => Setup.answer env dir (input.lines.head?.getD "")
  | inMenu m conn => Work.closing conn do
    let t := Menu.run m conn input
    Work.setFiles t.db.tree
    Work.print t.output
    if t.broken then throw .unreadableInput

def execute (env : Environment) (i : Invocation) (input : Text.Input) : Work Unit := do
  (← start env i).finish env input

/-! ### From the arguments to the end -/

inductive Ending
  | done
  | failed (f : Failure)
  | refused (r : Refusal)
  deriving DecidableEq, Repr

namespace Ending

/-- The exit status that tells how a command has ended. -/
def status : Ending → UInt8
  | done => 0
  | failed _ => 1
  | refused .displayHelp => 0
  | refused .displayVersion => 0
  | refused _ => 2

def ofResult {α : Type} : EStateM.Result Failure Console α → Ending × Console
  | .ok _ c => (done, c)
  | .error f c => (failed f, c)

end Ending

/-- The line that reports a failure. -/
def Failure.line (env : Environment) (f : Failure) : String :=
  failedMark env ++ " " ++ f.message

/-- Runs the command of some arguments on a tree of files. -/
def run (env : Environment) (tree : FileTree) (args : List String) (input : Text.Input) :
    Ending × Console :=
  match CommandLine.parse args with
  | .error r => (.refused r, ⟨tree, ""⟩)
  | .ok i => Ending.ofResult ((execute env i input).run ⟨tree, ""⟩)

end EndpointCatalog.Execution
