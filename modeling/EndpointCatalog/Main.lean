import EndpointCatalog.CommandLine.Help
import EndpointCatalog.Disk
import EndpointCatalog.Execution.Run
import EndpointCatalog.Store.Plain
import Std.Time.DateTime.Timestamp

/-! The program. It loads the files that a command may look at, runs the command, prints
what it shows, and stores the files that it has changed. -/

namespace EndpointCatalog

open Execution

namespace Program

def environment : IO Environment := do
  let home := (← IO.getEnv "HOME").getD "~"
  let now ← Std.Time.Timestamp.now
  -- A run is worked out at once, so it starts and ends in the same second.
  let seconds := now.toSecondsSinceUnixEpoch.val
  let color := (← (← IO.getStdout).isTty) && (← IO.getEnv "NO_COLOR").isNone
  return ⟨home, seconds, seconds, color, .plain⟩

/-- Files with these names may be read by a scan. -/
def mayBeScanned (options : ScanOptions) (name : String) : Bool :=
  Scan.hasSuffix options.fileSuffix name || Scan.hasSuffix ".js" name

/-- Loads what a scan of a root may read. -/
def loadScan (options : ScanOptions) (root : Option Path) (t : FileTree) : IO FileTree :=
  (root.toList ++ options.directiveRoot.toList).foldlM (Disk.load (mayBeScanned options) true) t

/-- Loads what a command may read. -/
def loadFor (env : Environment) (i : CommandLine.Invocation) : IO FileTree := do
  let dir := Path.expand env.home i.configDir
  let files := [dir, configPath dir, databasePath dir]
  let t ← files.foldlM (Disk.load (fun _ => true) false) (← Disk.start)
  let c := (Config.load (configPath dir) t).toOption.getD Config.standard
  match i.command with
  | some (.scan a) =>
    loadScan (c.scanOptionsWith env.home (a.overrides env.home)) (c.scanRoot env.home a.root) t
  | some (.list _ (some output)) => Disk.load (fun _ => true) false t ⟨output⟩
  | some .menu => loadScan (c.scanOptionsWith env.home .nothing) (c.scanRoot env.home none) t
  | _ => return t

def say (text : String) : IO Unit := do
  let out ← IO.getStdout
  out.putStr text
  out.flush

/-- The next line of the input, empty at its end and absent if it cannot be read. -/
def readLine : IO (Option String) := do
  match ← (do (← IO.getStdin).getLine : IO String).toBaseIO with
  | .ok line => return some line
  | .error _ => return none

/-- Loads the files that an answer makes a menu look at. -/
def loadAnswer (m : Menu.Setting) (prompt : Menu.Prompt) (line : String) : IO Menu.Setting :=
  match prompt with
  | .root => do
    let root := Path.expand m.home (Text.trim line)
    return { m with tree := ← loadScan m.options (some root) m.tree }
  | _ => return m

/-- Holds the conversation of a menu, and says whether it broke off at a line that
cannot be read. -/
partial def converse {sqlite : Sqlite} (m : Menu.Setting) (conn : Connection sqlite)
    (prompt : Menu.Prompt) : IO Bool := do
  say (prompt.text m)
  match ← readLine with
  | none =>
    Disk.store conn.tree (sqlite.disconnect conn.place conn.tree)
    return true
  | some "" =>
    let (shown, last) := Menu.finish m conn prompt
    say shown
    Disk.store conn.tree (sqlite.disconnect last.place last.tree)
    return false
  | some line =>
    let m ← loadAnswer m prompt line
    let turn := Menu.answer m conn prompt line
    say turn.shown
    match turn.next with
    | none =>
      Disk.store conn.tree (sqlite.disconnect turn.db.place turn.db.tree)
      return false
    | some next =>
      Disk.store conn.tree turn.db.tree
      converse m turn.db next

/-- Prints what a part of a command shows, stores what it has changed, and goes on
with its result unless it has failed. -/
def carryOut {α : Type} (env : Environment) (t : FileTree) (work : Work α)
    (next : α → FileTree → IO UInt32) : IO UInt32 := do
  let settle (c : Console) : IO Unit := do
    say c.shown
    Disk.store t c.tree
  match work.run ⟨t, ""⟩ with
  | .ok a c => do
    settle c
    next a c.tree
  | .error f c => do
    settle c
    IO.eprintln (f.line env)
    return (Ending.failed f).status.toUInt32

def ended : IO UInt32 := return Ending.done.status.toUInt32

def proceed (env : Environment) (stage : Stage env.sqlite) (t : FileTree) : IO UInt32 := do
  match stage with
  | .ended => ended
  | .asking dir =>
    let line := (← readLine).getD ""
    carryOut env t (Setup.answer env dir line) fun _ _ => ended
  | .inMenu m conn =>
    let broken ← converse m conn .choice
    carryOut env t (if broken then throw .unreadableInput else pure ()) fun _ _ => ended

end Program

end EndpointCatalog

open EndpointCatalog

def main (args : List String) : IO UInt32 := do
  match CommandLine.parse args with
  | .error r =>
    let ending := Execution.Ending.refused r
    if ending.status = 0 then Program.say r.text else IO.eprint r.text
    return ending.status.toUInt32
  | .ok i =>
    let env ← Program.environment
    let t ← Program.loadFor env i
    Program.carryOut env t (Execution.start env i) (Program.proceed env)
