import EndpointCatalog.Execution.Setup
import EndpointCatalog.Manual
import EndpointCatalog.Report.Render
import EndpointCatalog.Scan.Display
import EndpointCatalog.Scan.Recorded
import EndpointCatalog.Store.Memory

/-! The commands that work with a catalog that has been set up. Each one opens the database
and closes it in the end. Those that only read it leave its tables as they are; what a scan
or an entry by hand has changed is stored, also when it fails later. -/

namespace EndpointCatalog.Execution

open CommandLine (ScanArguments)
open Terminal

variable (env : Environment) (dir : Path)

def loadConfig : Work Config := do
  let p := configPath dir
  match Config.load p (← get).tree with
  | .ok c => return c
  | .error e => throw (.loadConfig p e)

/-- Opens the database of a catalog, which must be there. -/
def openCatalog : Work (Connection env.sqlite) := do
  let p := databasePath dir
  if !(← get).tree.isPresent p then throw (.noDatabase p)
  Work.connect env.sqlite (.openDatabase p) p

/-- Works with the database of a catalog, from opening it to closing it. -/
def withCatalog {α : Type} (work : Connection env.sqlite → Work α) : Work α := do
  let conn ← openCatalog env dir
  Work.closing conn (work conn)

/-! ### Scanning -/

/-- Scans into a store in memory, which is then dropped. -/
def dryScan (options : ScanOptions) (root : Path) : Work Scan.Summary := do
  match (Scan.scanRoot (← get).tree options root MemoryStore.empty).result with
  | .ok summary => return summary
  | .error e => throw (.catalog e)

def recordedScan (options : ScanOptions) (root : Path) : Work Scan.Summary :=
  withCatalog env dir fun conn =>
    Work.changeStore .catalog conn (Scan.scanRecorded conn.tree env.now env.later options root)

def scanHeading (root : Path) (dryRun : Bool) : String :=
  paint env.color .blue "→" ++ " Scanning " ++ bright env root.text ++
    (if dryRun then " (dry run)" else "")

def scan (c : Config) (a : ScanArguments) : Work Unit := do
  match c.scanRoot env.home a.root with
  | none => throw .noRoot
  | some root =>
    let options := c.scanOptionsWith env.home (a.overrides env.home)
    Work.printLine (scanHeading env root a.dryRun)
    let summary ← if a.dryRun then dryScan options root else recordedScan env dir options root
    Work.print (summary.text env.color)

/-! ### Entering by hand -/

def accountLine (a : Manual.Account) : String :=
  doneMark env ++ " " ++ a.page.folder ++ "/" ++ a.page.controller ++ ": " ++
    toString a.added ++ " added, " ++ toString a.skipped ++ " skipped"

def add (folder controller : String) (urls : List String) (redirect : Option String) :
    Work Unit := do
  let account ← withCatalog env dir fun conn =>
    Work.changeStore (fun e => .catalog (.store e)) conn
      (Manual.add folder controller (urls.map (⟨·, redirect.getD ""⟩))).attempt
  Work.printLine (accountLine env account)

/-! ### Reading -/

def writeReport (p : Path) (text : String) : Work Unit := do
  Work.changeFiles (fun e => .catalog (.io e)) (FileTree.write p (Text.Utf8.encode text.toList))
  Work.printLine (doneMark env ++ " Report saved: " ++ bright env p.text)

def list (format : Report.Format) (output : Option String) : Work Unit :=
  withCatalog env dir fun conn =>
    let text := (Report.ofStore env.now conn).render format
    match output with
    | some p => writeReport env ⟨p⟩ text
    | none => Work.print text

/-- One line for a session: its number, start, status, counts and root. -/
def sessionLine (s : Session) : String :=
  Text.padLeft '0' 8 (toString s.id) ++ "  " ++ (Report.Timestamp.ofSeconds s.started).text ++
    "  " ++ Text.padRight ' ' 9 s.status.name ++
    "  files: " ++ Text.padRight ' ' 5 (toString s.filesScanned) ++
    " added: " ++ Text.padRight ' ' 5 (toString s.endpointsAdded) ++ " " ++ s.root

def sessions : Work Unit :=
  withCatalog env dir fun conn =>
    match conn.db.sessionsByStart with
    | [] => Work.printLine "No scans recorded yet."
    | sessions => Work.print (String.join (sessions.map fun s => sessionLine s ++ "\n"))

end EndpointCatalog.Execution
