import EndpointCatalog.Files.Home
import EndpointCatalog.Manual
import EndpointCatalog.Report.Plain
import EndpointCatalog.Scan.Display
import EndpointCatalog.Scan.Recorded

/-! The menu. At every moment one prompt waits for a line: the choice of an action, or
one of the lines that an action asks for. A line takes the store and the open prompt
to the next ones and shows the outcome of the action it completes. -/

namespace EndpointCatalog.Menu

inductive Choice
  | scan
  | manual
  | list
  | exit
  | invalid
  deriving DecidableEq, Repr

def Choice.parse (line : String) : Choice :=
  match Text.trim line with
  | "1" => scan
  | "2" => manual
  | "3" => list
  | "4" => exit
  | _ => invalid

/-- What a menu works with, apart from the store. -/
structure Setting where
  tree : FileTree
  home : String
  /-- The time at which sessions start and reports are made. -/
  now : Int
  /-- The time at which sessions end. -/
  later : Int
  color : Bool
  options : ScanOptions
  /-- The root that an empty answer to the root prompt stands for. -/
  defaultRoot : Option Path

/-- The prompt that waits for a line, with the answers given before it. -/
inductive Prompt
  | choice
  | root
  | folder
  | controller (folder : String)
  | url (folder controller : String) (entries : List Manual.Entry)
  | redirect (folder controller : String) (entries : List Manual.Entry) (url : String)
  deriving DecidableEq, Repr

variable {σ : Type} [RecordingStore σ] (m : Setting)

def Prompt.text : Prompt → String
  | choice => "\n1. Automatic Scan\n2. Manual Entry\n3. List Catalog\n4. Exit\nChoose: "
  | root => match m.defaultRoot with
    | some path => "Root directory [" ++ path.text ++ "]: "
    | none => "Root directory: "
  | folder => "Folder name: "
  | controller _ => "Controller name: "
  | url .. => "API (empty to finish): "
  | redirect .. => "Redirect (empty for none): "

/-! ### Actions -/

def failed (message : String) : String :=
  Terminal.paint m.color Terminal.Style.red.bold "✗" ++ " " ++ message ++ "\n"

/-- Scans a root and shows the account of the scan. -/
def scan (root : Path) (db : σ) : String × σ :=
  match Scan.scanRecorded m.tree m.now m.later m.options root db with
  | (.ok summary, db) => (summary.text m.color, db)
  | (.error (.rootNotFound p), db) => (failed m (CatalogError.rootNotFound p).message, db)
  | (.error e, db) => (failed m ("Scan failed: " ++ e.message), db)

/-- Scans the root that an answer names. -/
def scanAnswer (answer : String) (db : σ) : String × σ :=
  if answer.isEmpty then
    match m.defaultRoot with
    | some root => scan m root db
    | none => (failed m "No root directory given", db)
  else scan m (Path.expand m.home answer) db

/-- Enters endpoints by hand and shows how many were added. -/
def enter (folder controller : String) (entries : List Manual.Entry) (db : σ) : String × σ :=
  match (Manual.add folder controller entries).run db with
  | .ok account db =>
    (Terminal.paint m.color Terminal.Style.green.bold "✓" ++ " Information added successfully: " ++
      toString account.added ++ " added, " ++ toString account.skipped ++ " skipped\n", db)
  | .error e db => (failed m e.message, db)

/-! ### Lines -/

/-- What a line leads to: the text it shows, the store, and the next prompt, if the menu
goes on. -/
structure Turn (σ : Type) where
  shown : String
  db : σ
  next : Option Prompt

/-- Shows the outcome of an action and returns to the choice. -/
def Turn.back {σ : Type} (outcome : String × σ) : Turn σ := ⟨outcome.1, outcome.2, some .choice⟩

/-- Answers the open prompt with a line. -/
def answer (db : σ) (prompt : Prompt) (line : String) : Turn σ :=
  let line := Text.trim line
  match prompt with
  | .choice => match Choice.parse line with
    | .scan => ⟨"", db, some .root⟩
    | .manual => ⟨"", db, some .folder⟩
    | .list => .back (Report.Plain.render (Report.ofStore m.now db), db)
    | .exit => ⟨"", db, none⟩
    | .invalid =>
      .back (Terminal.paint m.color Terminal.Style.red.bold "Error" ++ "\n", db)
  | .root => .back (scanAnswer m line db)
  | .folder => ⟨"", db, some (.controller line)⟩
  | .controller folder => ⟨"", db, some (.url folder line [])⟩
  | .url folder controller entries =>
    if line.isEmpty then .back (enter m folder controller entries db)
    else ⟨"", db, some (.redirect folder controller entries line)⟩
  | .redirect folder controller entries url =>
    ⟨"", db, some (.url folder controller (entries ++ [⟨url, line⟩]))⟩

/-- What is shown when the input ends at an open prompt, and the store then: an entry by
hand is completed, any other action is dropped, and the menu ends at the next choice. -/
def finish (db : σ) (prompt : Prompt) : String × σ :=
  match prompt with
  | .choice => ("", db)
  | .url folder controller entries =>
    let (shown, db) := enter m folder controller entries db
    (shown ++ Prompt.choice.text m, db)
  | .redirect folder controller entries url =>
    let entries := entries ++ [⟨url, ""⟩]
    let (shown, db) := enter m folder controller entries db
    ((Prompt.url folder controller entries).text m ++ shown ++ Prompt.choice.text m, db)
  | _ => (Prompt.choice.text m, db)

end EndpointCatalog.Menu
