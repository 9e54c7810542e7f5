import EndpointCatalog.Proofs.Scan.Accounting
import EndpointCatalog.Proofs.Scan.Activity
import EndpointCatalog.Scan.Recorded

/-! Recorded scans. A scan of a folder adds one session, which has ended when the scan has
and tells how it went; a root that is no folder changes nothing. No other session is
touched, because a new one has a number that no session before it has. -/

namespace EndpointCatalog

open StoreView

namespace Database

/-! ### Opening and closing -/

theorem id_lt_nextSession {db : Database} {s : Session} (h : s ∈ db.sessions) :
    s.id < db.nextSession := by
  have hmem : ∀ ss : List Session, s ∈ ss →
      s.id < ss.foldr (fun s next => max (s.id + 1) next) 0 := by
    intro ss hs
    induction ss with
    | nil => cases hs
    | cons t ts ih =>
      rw [List.foldr_cons]
      rcases List.mem_cons.1 hs with rfl | hs
      · omega
      · have := ih hs
        omega
  exact hmem db.sessions h

def newSession (db : Database) (now : Int) (root : String) : Session :=
  ⟨db.nextSession, root, now, none, .running, 0, 0⟩

/-- The database with a session that has just been opened. -/
def opened (db : Database) (now : Int) (root : String) : Database :=
  { db with sessions := db.sessions ++ [db.newSession now root] }

/-- The guard that refuses sessions, if there is one. -/
def sessionGuard? (db : Database) : Option Guard :=
  db.guards.find? fun g => g.table = .sessions && (g.url.isNone || g.url = none)

theorem createSession_run (now : Int) (root : String) (db : Database) :
    (createSession now root).run db = match db.sessionGuard? with
      | some g => .error (.database (.refused g.message)) db
      | none => .ok db.nextSession (db.opened now root) := by
  simp only [createSession, checkGuards, EStateM.run_bind, EStateM.run_get, sessionGuard?]
  cases db.guards.find? fun g => g.table = .sessions && (g.url.isNone || g.url = none) with
  | some g => rfl
  | none => rfl

/-- Changing the session that was added last changes no other one. -/
theorem updateSession_last {db after : Database} {s : Session} (hs : s.id = db.nextSession)
    (h : after.sessions = db.sessions ++ [s]) (change : Session → Session) :
    after.updateSession db.nextSession change =
      { after with sessions := db.sessions ++ [change s] } := by
  have hold : db.sessions.map (fun t => if t.id = db.nextSession then change t else t) =
      db.sessions := by
    refine (List.map_congr_left fun t ht => ?_).trans (List.map_id _)
    exact if_neg (Nat.ne_of_lt (id_lt_nextSession ht))
  rw [updateSession, h, List.map_append, hold, List.map_singleton, if_pos hs]

end Database

namespace Scan

/-- A session as it is closed after a scan with the given result. -/
def closedAs (ended : Int) (s : Session) : Except CatalogError Summary → Session
  | .ok summary => { s with
      status := .completed
      ended := some ended
      filesScanned := summary.filesScanned
      endpointsAdded := summary.endpointsAdded }
  | .error _ => { s with status := .failed, ended := some ended }

theorem close_last {ended : Int} {db : Database} {s : Session} {o : Outcome Database}
    (hs : s.id = db.nextSession) (h : o.store.sessions = db.sessions ++ [s]) :
    close ended db.nextSession o = (o.result,
      { o.store with sessions := db.sessions ++ [closedAs ended s o.result] }) := by
  rw [close]
  cases o.result with
  | ok summary => exact congrArg (Prod.mk _) (Database.updateSession_last hs h _)
  | error e => exact congrArg (Prod.mk _) (Database.updateSession_last hs h _)

/-- The database takes every mark on a session, so that closing one reports how its scan went. -/
theorem close_result (ended : Int) (session : Nat) (o : Outcome Database) :
    (close ended session o).1 = o.result := by
  rw [close]
  cases o.result with
  | ok summary => rfl
  | error e => rfl

/-! ### One scan -/

theorem scanRecorded_folder {tree : FileTree} {started ended : Int} {options : ScanOptions}
    {root : Path} {top : Location} (h : tree.folder? root = some top) (db : Database) :
    scanRecorded tree started ended options root db = match db.sessionGuard? with
      | some g => (.error (.store (.database (.refused g.message))), db)
      | none =>
        close ended db.nextSession (scanRoot tree options root (db.opened started root.text)) := by
  have hfolder : ¬ (tree.folder? root).isNone = true := by simp [h]
  have hrun : (RecordingStore.createSession started root.text).run db = _ :=
    Database.createSession_run started root.text db
  rw [scanRecorded, if_neg hfolder, hrun]
  cases db.sessionGuard? with
  | some g => rfl
  | none => rfl

/-- A scan that is to be recorded. -/
structure Recording where
  tree : FileTree
  started : Int
  ended : Int
  options : ScanOptions
  root : Path

namespace Recording

variable (c : Recording) (db : Database)

def run : Except CatalogError Summary × Database :=
  scanRecorded c.tree c.started c.ended c.options c.root db

/-- The scan itself, in the database with its session. -/
def outcome : Outcome Database :=
  (Request.below c.root).run c.tree c.options (db.opened c.started c.root.text)

theorem outcome_grows : (rows db).Grows (rows (c.outcome db).store) :=
  ((Request.below c.root).extends_run c.tree c.options
    (db.opened c.started c.root.text)).grows

theorem outcome_setting : (c.outcome db).store.sessions =
    db.sessions ++ [db.newSession c.started c.root.text] ∧ (c.outcome db).store.guards = db.guards := by
  obtain ⟨_, hi⟩ := (Request.below c.root).extends_run c.tree c.options
    (db.opened c.started c.root.text)
  exact ⟨congrArg Prod.fst hi.setting_eq, congrArg Prod.snd hi.setting_eq⟩

theorem run_eq : c.run db = match c.tree.folder? c.root, db.sessionGuard? with
    | none, _ => (.error (.rootNotFound c.root), db)
    | some _, some g => (.error (.store (.database (.refused g.message))), db)
    | some _, none => ((c.outcome db).result, { (c.outcome db).store with
        sessions := db.sessions ++
          [closedAs c.ended (db.newSession c.started c.root.text) (c.outcome db).result] }) := by
  rw [run]
  cases hroot : c.tree.folder? c.root with
  | none => rw [scanRecorded, hroot]; rfl
  | some top =>
    rw [scanRecorded_folder hroot]
    cases db.sessionGuard? with
    | some g => rfl
    | none => exact close_last rfl (c.outcome_setting db).1

/-- What refuses sessions is not changed by a recorded scan. -/
theorem run_guards : (c.run db).2.guards = db.guards := by
  rw [run_eq]
  cases c.tree.folder? c.root with
  | none => rfl
  | some top =>
    cases db.sessionGuard? with
    | some g => rfl
    | none => exact (c.outcome_setting db).2

end Recording

/-- What a recorded scan returns and leaves of a database that refuses no session. -/
inductive Recorded (c : Recording) (db : Database) : Except CatalogError Summary × Database → Prop
  | missing : c.tree.folder? c.root = none → Recorded c db (.error (.rootNotFound c.root), db)
  | completed {summary : Summary} {after : Database} : (c.tree.folder? c.root).isSome →
      after.sessions = db.sessions ++ [⟨db.nextSession, c.root.text, c.started, some c.ended,
        .completed, summary.filesScanned, summary.endpointsAdded⟩] →
      Accounts summary (rows db) (rows after) → Recorded c db (.ok summary, after)
  | failed {e : CatalogError} {after : Database} : (c.tree.folder? c.root).isSome →
      after.sessions = db.sessions ++
        [⟨db.nextSession, c.root.text, c.started, some c.ended, .failed, 0, 0⟩] →
      (rows db).Grows (rows after) → Recorded c db (.error e, after)

theorem Recording.recorded {db : Database} (h : db.sessionGuard? = none) (c : Recording) :
    Recorded c db (c.run db) := by
  rw [Recording.run_eq, h]
  cases hroot : c.tree.folder? c.root with
  | none => exact .missing hroot
  | some top =>
    have hfolder : (c.tree.folder? c.root).isSome := by rw [hroot, Option.isSome_some]
    have hgrows := c.outcome_grows db
    cases hresult : (c.outcome db).result with
    | ok summary => exact .completed hfolder rfl (Request.accounts hresult).2
    | error e => exact .failed hfolder rfl hgrows

theorem Recorded.sessions {c : Recording} {db : Database}
    {p : Except CatalogError Summary × Database} (h : Recorded c db p) :
    ∃ added : List Session, p.2.sessions = db.sessions ++ added ∧
      ∀ s ∈ added, s.status ≠ .running := by
  cases h with
  | missing _ => exact ⟨[], (List.append_nil _).symm, by simp⟩
  | completed _ hs _ => exact ⟨_, hs, by simp⟩
  | failed _ hs _ => exact ⟨_, hs, by simp⟩

/-! ### Scans one after the other -/

namespace Recording

def runAll (cs : List Recording) (db : Database) : Database := cs.foldl (fun db c => (c.run db).2) db

theorem runAll_guards (cs : List Recording) (db : Database) : (runAll cs db).guards = db.guards := by
  induction cs generalizing db with
  | nil => rfl
  | cons c cs ih => exact (ih (c.run db).2).trans (c.run_guards db)

theorem runAll_sessions {db : Database} (h : db.sessionGuard? = none) (cs : List Recording) :
    ∃ added : List Session, (runAll cs db).sessions = db.sessions ++ added ∧
      ∀ s ∈ added, s.status ≠ .running := by
  induction cs generalizing db with
  | nil => exact ⟨[], (List.append_nil _).symm, by simp⟩
  | cons c cs ih =>
    have hnext : (c.run db).2.sessionGuard? = none := by
      rw [Database.sessionGuard?, c.run_guards db]
      exact h
    obtain ⟨first, hfirst, hended⟩ := (c.recorded h).sessions
    obtain ⟨rest, hrest, hendeds⟩ := ih hnext
    refine ⟨first ++ rest, ?_, ?_⟩
    · rw [← List.append_assoc, ← hfirst]
      exact hrest
    · exact List.forall_mem_append.2 ⟨hended, hendeds⟩

/-- Each of several recorded scans leaves its own record, and none of them leaves a session
that is still running. -/
theorem runAll_recorded {db : Database} (h : db.sessionGuard? = none) (cs : List Recording) :
    (∀ before c after, cs = before ++ c :: after →
      Recorded c (runAll before db) (c.run (runAll before db))) ∧
    ∃ added : List Session, (runAll cs db).sessions = db.sessions ++ added ∧
      ∀ s ∈ added, s.status ≠ .running := by
  refine ⟨fun before c after _ => c.recorded ?_, runAll_sessions h cs⟩
  rw [Database.sessionGuard?, runAll_guards before db]
  exact h

end Recording

/-- Of two scans of the guarded database, the second one of which finds an endpoint that is
refused, only the one of a folder is recorded. -/
theorem guardedCatalog_recorded :
    let missing : Recording := ⟨sharedPage, 5, 6, .standard, ⟨"missing"⟩⟩
    let refused : Recording :=
      ⟨sharedPage, 7, 8, { ScanOptions.standard with fileSuffix := "a.js" }, ⟨"v"⟩⟩
    guardedCatalog.sessionGuard? = none ∧
      ∃ s, (Recording.runAll [missing, refused] guardedCatalog).sessions = [s] ∧
        s.root = "v" ∧ s.status ≠ .running := by
  intro missing refused
  have hmissing : missing.tree.folder? missing.root = none := by cbv
  have hfolder : refused.tree.folder? refused.root = some ["v"] := by cbv
  have hguards : guardedCatalog.sessionGuard? = none := rfl
  obtain ⟨hsteps, _⟩ := Recording.runAll_recorded hguards [missing, refused]
  have hfirst : (missing.run guardedCatalog).2 = guardedCatalog := by
    rw [Recording.run_eq, hmissing]
  have hsecond := hsteps [missing] refused [] rfl
  change Recorded refused (missing.run guardedCatalog).2 (refused.run (missing.run guardedCatalog).2)
    at hsecond
  rw [hfirst] at hsecond
  change _ ∧ ∃ s, (refused.run (missing.run guardedCatalog).2).2.sessions = [s] ∧ _
  rw [hfirst]
  refine ⟨hguards, ?_⟩
  generalize refused.run guardedCatalog = p at hsecond
  cases hsecond with
  | missing h => cases h.symm.trans hfolder
  | completed _ hs _ => exact ⟨_, hs, rfl, by simp⟩
  | failed _ hs _ => exact ⟨_, hs, rfl, by simp⟩

end Scan

end EndpointCatalog
