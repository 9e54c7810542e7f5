import EndpointCatalog.Execution.Failure
import EndpointCatalog.Store.Sqlite
import EndpointCatalog.Terminal.Style

/-! What a command works on: the files, and the console on which it shows text. Work may
fail, and then what it has written and shown so far stays. -/

namespace EndpointCatalog.Execution

/-- What a command finds around it. -/
structure Environment where
  home : String
  /-- Seconds since 1970 when the command starts. -/
  now : Int
  /-- Seconds since 1970 when it ends. -/
  later : Int
  color : Bool
  sqlite : Sqlite

structure Console where
  tree : FileTree
  shown : String

abbrev Work := EStateM Failure Console

namespace Work

def print (text : String) : Work Unit := modify fun c => { c with shown := c.shown ++ text }

def printLine (text : String) : Work Unit := print (text ++ "\n")

/-- Changes the files; `failure` says what it means that this fails. -/
def changeFiles {ε α : Type} (failure : ε → Failure) (change : EStateM ε FileTree α) : Work α :=
  fun c => match change.run c.tree with
    | .ok a tree => .ok a { c with tree }
    | .error e tree => .error (failure e) { c with tree }

def setFiles (tree : FileTree) : Work Unit := modify fun c => { c with tree }

/-! ### Databases -/

variable {sqlite : Sqlite}

variable (sqlite) in
/-- Opens a database, or creates it if it is missing. -/
def connect (failure : DatabaseFailure → Failure) (p : Path) : Work (Connection sqlite) := do
  match sqlite.place (← get).tree p with
  | .error e => throw (failure e)
  | .ok place =>
    let db ← changeFiles failure (sqlite.connect p place)
    return ⟨place, db, (← get).tree⟩

/-- Works with an open database, which is closed in the end, also if the work fails. -/
def closing {α : Type} (conn : Connection sqlite) (work : Work α) : Work α := fun c =>
  match work.run c with
  | .ok a c => .ok a { c with tree := sqlite.disconnect conn.place c.tree }
  | .error e c => .error e { c with tree := sqlite.disconnect conn.place c.tree }

/-- Changes an open database; `failure` says what it means that this fails. -/
def changeStore {ε α : Type} (failure : ε → Failure) (conn : Connection sqlite)
    (change : Connection sqlite → Except ε α × Connection sqlite) : Work α := do
  let (result, conn) := change conn
  setFiles conn.tree
  match result with
  | .ok a => return a
  | .error e => throw (failure e)

end Work

/-! ### Marks at the front of lines -/

open Terminal

variable (env : Environment)

def doneMark : String := paint env.color Style.green.bold "✓"

def failedMark : String := paint env.color Style.red.bold "✗"

/-- A text that stands out, such as a path. -/
def bright (text : String) : String := paint env.color .brightWhite text

end EndpointCatalog.Execution
