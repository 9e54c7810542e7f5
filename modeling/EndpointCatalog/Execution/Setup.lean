import EndpointCatalog.CommandLine.Invocation
import EndpointCatalog.Execution.Console
import EndpointCatalog.Text.Blank

/-! Setting up a configuration folder with a configuration and a database. A folder
that is there already is only touched after the user agrees. What it holds is kept,
unless the setup is forced: then the configuration and the database start anew. -/

namespace EndpointCatalog.Execution

def configPath (dir : Path) : Path := dir.join "config.toml"

def databasePath (dir : Path) : Path := dir.join "ctrlscan.db"

namespace Setup

open Terminal

variable (env : Environment) (dir : Path)

/-! ### The screen -/

def divider : String :=
  paint env.color Style.brightBlue.bold (String.ofList (List.replicate 60 '═')) ++ "\n"

/-- A title between two dividers. -/
def title (style : Style) (text : String) : String :=
  divider env ++ paint env.color style.bold text ++ "\n" ++ divider env ++ "\n"

def opening : String :=
  title env .brightWhite "  CTRLSCAN INITIALIZATION" ++
    paint env.color .blue "→" ++ " Target: " ++ bright env dir.text ++ "\n\n"

def question : String :=
  paint env.color Style.yellow.bold "⚠ WARNING" ++ "\n" ++
    "Configuration directory already exists:\n" ++
    "  " ++ paint env.color .yellow "•" ++ " " ++ bright env dir.text ++ "\n\n" ++
    paint env.color Style.brightCyan.bold "Do you want to continue? [y/N]:" ++ " "

def closing : String := "\n" ++ title env .green "  INITIALIZATION COMPLETE"

/-! ### The work -/

/-- Removes the database, if there is one. -/
def removeDatabase : Work Unit := do
  let p := databasePath dir
  if (← get).tree.isPresent p then
    Work.printLine (paint env.color Style.yellow.bold "→" ++
      " Deleting existing database (force mode)")
    Work.changeFiles (.removeDatabase p) (FileTree.remove p)

def writeConfig : Work Unit := do
  let p := configPath dir
  Work.changeFiles (.writeConfig p) (Config.standard.save p)
  Work.printLine (doneMark env ++ " Config written: " ++ bright env p.text)

def createDatabase : Work Unit := do
  let p := databasePath dir
  let conn ← Work.connect env.sqlite (.createDatabase p) p
  Work.closing conn (pure ())
  Work.printLine (doneMark env ++ " Database initialized: " ++ bright env p.text)

/-- Creates what is missing, and everything if it is forced. -/
def create (force : Bool) : Work Unit := do
  Work.changeFiles (.createFolder dir) (FileTree.createFolders dir)
  if force then removeDatabase env dir
  if force || !(← get).tree.isPresent (configPath dir) then writeConfig env dir
  createDatabase env dir
  Work.print (closing env)

/-! ### Asking -/

/-- Starts the setup, and says whether it waits for the answer to its question. -/
def start (force : Bool) : Work Bool := do
  Work.print (opening env dir)
  if !force && (← get).tree.isPresent dir then
    Work.print (question env dir)
    return true
  else
    create env dir force
    return false

def agrees (line : String) : Bool :=
  let answer := Text.lower (Text.trim line)
  answer == "y" || answer == "yes"

/-- Goes on with the answer to the question. -/
def answer (line : String) : Work Unit := do
  Work.print "\n"
  if agrees line then create env dir false
  else Work.printLine (failedMark env ++ " Initialization cancelled.")

end Setup

end EndpointCatalog.Execution
