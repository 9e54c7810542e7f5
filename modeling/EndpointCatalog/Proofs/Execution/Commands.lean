import EndpointCatalog.Execution.Run
import EndpointCatalog.Proofs.Execution.Connection
import EndpointCatalog.Proofs.Files.Folders
import EndpointCatalog.Proofs.Scan.DryRun

/-! What commands do to files. A command opens the database of a catalog, works with it and
closes it, and in between it may write a report. A setup that is not forced first creates what
is missing: a configuration where there is none, and folders only where there is no database
either. -/

namespace EndpointCatalog.Execution

open Connection (Advances Synced)
open Database (Within)
open FileTree (Stays Touches)
open Sqlite (files)

variable {sqlite : Sqlite} {stored? : FileTree → Location → Option Database}

/-! ### What a command may do -/

/-- Only the files of a database differ, and it still has all of its rows. -/
structure Keeps (stored? : FileTree → Location → Option Database) (loc : Location)
    (t t' : FileTree) : Prop extends
    Touches (files loc) t t' where
  stays {db : Database} (h : stored? t loc = some db) : Stays t t'
  rows {db : Database} (h : stored? t loc = some db) :
    ∃ after, stored? t' loc = some after ∧ db.Within after

instance (loc : Location) : IsPreorder FileTree (Keeps stored? loc) where
  refl t :=
    ⟨refl_of (Touches (files loc)) t, fun _ => refl_of Stays t, fun h => ⟨_, h, refl_of Within _⟩⟩
  trans _ _ _ h h' := by
    refine ⟨trans_of (Touches (files loc)) h.toTouches h'.toTouches, fun hdb => ?_, fun hdb => ?_⟩
    · obtain ⟨mid, hmid, -⟩ := h.rows hdb
      exact trans_of Stays (h.stays hdb) (h'.stays hmid)
    · obtain ⟨mid, hmid, hwithin⟩ := h.rows hdb
      obtain ⟨after, hafter, hwithin'⟩ := h'.rows hmid
      exact ⟨after, hafter, trans_of Within hwithin hwithin'⟩

/-- Nothing differs but for a report. -/
inductive Reports (report : Option Path) (t : FileTree) : FileTree → Prop
  | same : Reports report t t
  | written {p : Path} {place : Location} {content : Text.Utf8.Bytes} (hp : report = some p)
      (h : t.target? p = some place) : Reports report t (t.put place (.file content))

variable (sqlite stored?) in
/-- What may be left of a tree when the database of a path has been opened and closed. -/
inductive Uses (q : Path) (report : Option Path) (t : FileTree) : FileTree → Prop
  | same : Uses q report t t
  | opened {loc : Location} {t₁ t₂ t₃ : FileTree} (hplace : sqlite.place t q = .ok loc)
      (hopen : Keeps stored? loc t t₁) (hreport : Reports report t₁ t₂)
      (hclose : Keeps stored? loc t₂ t₃) : Uses q report t t₃

variable (sqlite stored?) in
/-- What a command may leave of a tree. -/
inductive Leaves (dir : Path) (report : Option Path) (t : FileTree) : FileTree → Prop
  -- There is nothing that could be lost.
  | begun {t' : FileTree} (hconfig : t.isPresent (configPath dir) = false)
      (hdatabase : t.isPresent (databasePath dir) = false) : Leaves dir report t t'
  | configured {place : Location} {t' : FileTree} (hconfig : t.isPresent (configPath dir) = false)
      (hplace : t.target? (configPath dir) = some place)
      (h : Uses sqlite stored? (databasePath dir) none
        (t.put place (.file (Text.Utf8.encode Config.standard.text.toList))) t') :
      Leaves dir report t t'
  | used {t' : FileTree} (h : Uses sqlite stored? (databasePath dir) report t t') :
      Leaves dir report t t'

theorem Leaves.refl (dir : Path) (report : Option Path) (t : FileTree) :
    Leaves sqlite stored? dir report t t := .used .same

/-! ### Work -/

section Work

variable {α β : Type} {c c' : Console}

theorem finalState_bind_ok {x : Work α} {f : α → Work β} {a : α} (h : x.run c = .ok a c') :
    finalState (x >>= f) c = finalState (f a) c' := by
  rw [finalState, EStateM.run_bind, h]
  rfl

theorem finalState_bind_error {x : Work α} {f : α → Work β} {e : Failure}
    (h : x.run c = .error e c') : finalState (x >>= f) c = c' := by
  rw [finalState, EStateM.run_bind, h]

theorem finalState_bind_print (x : Work α) (text : α → String) (c : Console) :
    (finalState (x >>= fun a => Work.print (text a)) c).tree = (finalState x c).tree := by
  rw [finalState, finalState, EStateM.run_bind]
  cases x.run c <;> rfl

theorem finalState_bind_printLine (x : Work α) (text : α → String) (c : Console) :
    (finalState (x >>= fun a => Work.printLine (text a)) c).tree = (finalState x c).tree :=
  finalState_bind_print x (fun a => text a ++ "\n") c

theorem changeFiles_eq {ε : Type} (failure : ε → Failure) (change : EStateM ε FileTree α)
    (c : Console) : (Work.changeFiles failure change).run c = match change.run c.tree with
      | .ok a tree => .ok a { c with tree }
      | .error e tree => .error (failure e) { c with tree } := by
  rw [EStateM.run, Work.changeFiles]
  cases change.run c.tree <;> rfl

theorem loadConfig_eq (dir : Path) (c : Console) :
    (loadConfig dir).run c = match Config.load (configPath dir) c.tree with
      | .ok config => .ok config c
      | .error e => .error (.loadConfig (configPath dir) e) c := by
  simp only [loadConfig, EStateM.run_bind, EStateM.run_get]
  cases Config.load (configPath dir) c.tree <;> rfl

theorem loadConfig_run (dir : Path) (c : Console) :
    (∃ e, (loadConfig dir).run c = .error e c) ∨
      ∃ config, (loadConfig dir).run c = .ok config c := by
  rw [loadConfig_eq]
  cases Config.load (configPath dir) c.tree with
  | error e => exact .inl ⟨_, rfl⟩
  | ok config => exact .inr ⟨config, rfl⟩

/-! ### Opening and closing a database -/

theorem connect_eq (failure : DatabaseFailure → Failure) (q : Path) (c : Console) :
    (Work.connect sqlite failure q).run c = match sqlite.place c.tree q with
      | .error e => .error (failure e) c
      | .ok loc => match (sqlite.connect q loc).run c.tree with
        | .ok db tree => .ok ⟨loc, db, tree⟩ { c with tree }
        | .error e tree => .error (failure e) { c with tree } := by
  simp only [Work.connect, EStateM.run_bind, EStateM.run_get]
  cases sqlite.place c.tree q with
  | error e => rfl
  | ok loc =>
    simp only [EStateM.run_bind, changeFiles_eq]
    cases (sqlite.connect q loc).run c.tree <;> rfl

theorem closing_eq (conn : Connection sqlite) (x : Work α) (c : Console) :
    (Work.closing conn x).run c = match x.run c with
      | .ok a c => .ok a { c with tree := sqlite.disconnect conn.place c.tree }
      | .error e c => .error e { c with tree := sqlite.disconnect conn.place c.tree } := rfl

theorem closing_tree (conn : Connection sqlite) (x : Work α) (c : Console) :
    (finalState (Work.closing conn x) c).tree =
      sqlite.disconnect conn.place (finalState x c).tree := by
  rw [finalState, finalState, closing_eq]
  cases x.run c <;> rfl

/-- How opening a database ends. -/
inductive Connected (stored? : FileTree → Location → Option Database) (q : Path) (c : Console) :
    EStateM.Result Failure Console (Connection sqlite) → Prop
  | refused {f : Failure} : Connected stored? q c (.error f c)
  | failed {f : Failure} {loc : Location} {t : FileTree} (hplace : sqlite.place c.tree q = .ok loc)
      (h : Keeps stored? loc c.tree t) : Connected stored? q c (.error f { c with tree := t })
  | opened {conn : Connection sqlite} (hplace : sqlite.place c.tree q = .ok conn.place)
      (hsynced : conn.Synced stored?) (h : Keeps stored? conn.place c.tree conn.tree) :
      Connected stored? q c (.ok conn { c with tree := conn.tree })

variable (hlawful : sqlite.Lawful stored?)
include hlawful

theorem connected (failure : DatabaseFailure → Failure) (q : Path) (c : Console) :
    Connected stored? q c ((Work.connect sqlite failure q).run c) := by
  rw [connect_eq]
  cases hplace : sqlite.place c.tree q with
  | error e => exact .refused
  | ok loc =>
    have hkeeps : Keeps stored? loc c.tree (finalState (sqlite.connect q loc) c.tree) :=
      ⟨hlawful.connect_touches hplace, hlawful.connect_stays hplace,
        fun hdb => ⟨_, hlawful.connect_keeps hplace hdb, refl_of Within _⟩⟩
    rw [finalState] at hkeeps
    cases hrun : (sqlite.connect q loc).run c.tree with
    | error e t =>
      rw [hrun] at hkeeps
      simp only [hrun]
      exact .failed hplace hkeeps
    | ok db t =>
      rw [hrun] at hkeeps
      simp only [hrun]
      have hsynced : Synced stored? (⟨loc, db, t⟩ : Connection sqlite) :=
        hlawful.connect_ok hplace hrun
      exact .opened hplace hsynced hkeeps

theorem keeps_disconnect (loc : Location) (t : FileTree) :
    Keeps stored? loc t (sqlite.disconnect loc t) :=
  ⟨hlawful.disconnect_touches t loc, hlawful.disconnect_stays,
    fun h => ⟨_, hlawful.disconnect_keeps h, refl_of Within _⟩⟩

/-- What work on an open database may leave before it is closed. -/
def Serves (stored? : FileTree → Location → Option Database) (report : Option Path)
    (conn : Connection sqlite) (t' : FileTree) : Prop :=
  ∃ t, Keeps stored? conn.place conn.tree t ∧ Reports report t t'

variable {q : Path} {report : Option Path}

theorem connect_uses {f : Connection sqlite → Work α} (failure : DatabaseFailure → Failure)
    (hf : ∀ conn : Connection sqlite, conn.Synced stored? →
      Serves stored? report conn (finalState (f conn) { c with tree := conn.tree }).tree) :
    Uses sqlite stored? q report c.tree (finalState
      (Work.connect sqlite failure q >>= fun conn => Work.closing conn (f conn)) c).tree := by
  have hconnected := connected hlawful failure q c
  cases hrun : (Work.connect sqlite failure q).run c with
  | error e c' =>
    rw [hrun] at hconnected
    rw [finalState_bind_error hrun]
    cases hconnected with
    | refused => exact .same
    | failed hplace h => exact .opened hplace h .same (refl_of (Keeps stored? _) _)
  | ok conn c' =>
    rw [hrun] at hconnected
    rw [finalState_bind_ok hrun, closing_tree]
    cases hconnected with
    | opened hplace hsynced h =>
      obtain ⟨t, hkeeps, hreports⟩ := hf conn hsynced
      exact .opened hplace (trans_of (Keeps stored? _) h hkeeps) hreports
        (keeps_disconnect hlawful _ _)

end Work

/-! ### Catalogs -/

section Catalog

variable {env : Environment} {dir : Path} {report : Option Path} {c : Console} {α : Type}

/-- A catalog is opened as its database is, if the database is there. -/
theorem openCatalog_bind {β : Type} (f : Connection env.sqlite → Work β) (c : Console) :
    finalState (openCatalog env dir >>= f) c =
      if c.tree.isPresent (databasePath dir) then
        finalState
          (Work.connect env.sqlite (.openDatabase (databasePath dir)) (databasePath dir) >>= f) c
      else c := by
  have hget : (get : Work Console).run c = .ok c c := rfl
  rw [openCatalog, bind_assoc, finalState_bind_ok hget]
  cases c.tree.isPresent (databasePath dir) with
  | true => simp
  | false =>
    simp only [Bool.not_false, if_true, bind_assoc, Bool.false_eq_true, if_false]
    rfl

variable (hlawful : env.sqlite.Lawful stored?)
include hlawful

theorem openCatalog_uses {f : Connection env.sqlite → Work α}
    (hf : ∀ conn : Connection env.sqlite, conn.Synced stored? →
      Serves stored? report conn (finalState (f conn) { c with tree := conn.tree }).tree) :
    Uses env.sqlite stored? (databasePath dir) report c.tree
      (finalState (openCatalog env dir >>= fun conn => Work.closing conn (f conn)) c).tree := by
  rw [openCatalog_bind]
  split
  · exact connect_uses hlawful _ hf
  · exact .same

omit hlawful in
/-- Statements on an open database leave it with all of its rows. -/
theorem serves_of_advances {conn conn' : Connection sqlite} (h : Advances stored? Within conn conn')
    (hsynced : conn.Synced stored?) : Serves stored? report conn conn'.tree := by
  refine ⟨conn'.tree, ⟨h.touches, fun _ => h.stays hsynced, fun hdb => ?_⟩, .same⟩
  cases hdb.symm.trans hsynced
  have hstored := h.synced hsynced
  rw [Synced, h.place_eq] at hstored
  exact ⟨conn'.db, hstored, h.database⟩

omit hlawful in
theorem changeStore_tree {ε : Type} (failure : ε → Failure) (conn : Connection sqlite)
    (change : Connection sqlite → Except ε α × Connection sqlite) (c : Console) :
    (finalState (Work.changeStore failure conn change) c).tree = (change conn).2.tree := by
  rw [Work.changeStore]
  obtain ⟨result, after⟩ := change conn
  have hset : (Work.setFiles after.tree).run c = .ok () { c with tree := after.tree } := rfl
  dsimp only
  rw [finalState_bind_ok hset]
  cases result <;> rfl

theorem recordedScan_uses (options : ScanOptions) (root : Path) :
    Uses env.sqlite stored? (databasePath dir) report c.tree
      (finalState (recordedScan env dir options root) c).tree := by
  refine openCatalog_uses hlawful fun conn hsynced => ?_
  rw [changeStore_tree]
  exact serves_of_advances (Scan.scanRecorded_advances hlawful _ _ _ _ _ conn) hsynced

omit hlawful in
theorem dryScan_tree (options : ScanOptions) (root : Path) (c : Console) :
    (finalState (dryScan options root) c).tree = c.tree := by
  rw [finalState, dryScan_run]
  cases (Scan.scanRoot c.tree options root MemoryStore.empty).result <;> rfl

variable (env) in
/-- The scan of a command, without what is shown of it. -/
def silentScan (dir : Path) (config : Config) (a : CommandLine.ScanArguments) (root : Path) :
    Work Scan.Summary :=
  let options := config.scanOptionsWith env.home (a.overrides env.home)
  if a.dryRun then dryScan options root else recordedScan env dir options root

omit hlawful in
theorem scan_eq (dir : Path) (config : Config) (a : CommandLine.ScanArguments) {root : Path}
    (h : config.scanRoot env.home a.root = some root) (c : Console) :
    ∃ c₁ : Console, c₁.tree = c.tree ∧ (finalState (scan env dir config a) c).tree =
      (finalState (silentScan env dir config a root) c₁).tree := by
  refine ⟨{ c with shown := c.shown ++ (scanHeading env root a.dryRun ++ "\n") }, rfl, ?_⟩
  simp only [scan, h, silentScan]
  cases a.dryRun with
  | false => exact finalState_bind_print _ _ _
  | true => exact finalState_bind_print _ _ _

omit hlawful in
theorem scan_tree_of_dryRun (config : Config) {a : CommandLine.ScanArguments}
    (h : a.dryRun = true) (c : Console) : (finalState (scan env dir config a) c).tree = c.tree := by
  cases hroot : config.scanRoot env.home a.root with
  | none =>
    simp only [scan, hroot]
    rfl
  | some root =>
    obtain ⟨c₁, hc₁, heq⟩ := scan_eq dir config a hroot c
    rw [heq, silentScan, if_pos h, dryScan_tree, hc₁]

theorem scan_uses (config : Config) (a : CommandLine.ScanArguments) :
    Uses env.sqlite stored? (databasePath dir) report c.tree
      (finalState (scan env dir config a) c).tree := by
  cases hroot : config.scanRoot env.home a.root with
  | none =>
    simp only [scan, hroot]
    exact .same
  | some root =>
    obtain ⟨c₁, hc₁, heq⟩ := scan_eq dir config a hroot c
    rw [heq, ← hc₁, silentScan]
    split
    · rw [dryScan_tree]
      exact .same
    · exact recordedScan_uses hlawful _ root

theorem add_uses (folder controller : String) (urls : List String) (redirect : Option String) :
    Uses env.sqlite stored? (databasePath dir) report c.tree
      (finalState (add env dir folder controller urls redirect) c).tree := by
  rw [add, finalState_bind_printLine]
  refine openCatalog_uses hlawful fun conn hsynced => ?_
  rw [changeStore_tree]
  have hadd := Manual.add_advances hlawful folder controller
    (urls.map (⟨·, redirect.getD ""⟩)) conn
  rw [finalState] at hadd
  rw [StoreM.attempt]
  cases hr : (Manual.add folder controller (urls.map (⟨·, redirect.getD ""⟩))).run conn with
  | ok account conn' =>
    rw [hr] at hadd
    exact serves_of_advances hadd hsynced
  | error e conn' =>
    rw [hr] at hadd
    exact serves_of_advances hadd hsynced

omit hlawful in
/-- Work that leaves the files alone. -/
theorem serves_of_tree_eq {conn : Connection sqlite} {t : FileTree} (h : t = conn.tree) :
    Serves stored? report conn t :=
  ⟨conn.tree, refl_of (Keeps stored? conn.place) conn.tree, h ▸ .same⟩

theorem sessions_uses : Uses env.sqlite stored? (databasePath dir) report c.tree
    (finalState (sessions env dir) c).tree := by
  refine openCatalog_uses hlawful fun conn _ => serves_of_tree_eq ?_
  cases conn.db.sessionsByStart <;> rfl

omit hlawful in
theorem writeReport_reports (p : Path) (text : String) (c : Console) :
    Reports (some p) c.tree (finalState (writeReport env p text) c).tree := by
  have htree : (finalState (writeReport env p text) c).tree =
      finalState (FileTree.write p (Text.Utf8.encode text.toList)) c.tree := by
    rw [finalState, finalState, writeReport, EStateM.run_bind, changeFiles_eq]
    cases (FileTree.write p (Text.Utf8.encode text.toList)).run c.tree <;> rfl
  rw [htree, finalState]
  rcases FileTree.write_run p (Text.Utf8.encode text.toList) c.tree with
    ⟨e, he⟩ | ⟨place, hplace, hok⟩
  · rw [he]
    exact .same
  · rw [hok]
    exact .written rfl hplace

theorem list_uses (format : Report.Format) (output : Option String) :
    Uses env.sqlite stored? (databasePath dir) (output.map (⟨·⟩)) c.tree
      (finalState (list env dir format output) c).tree := by
  refine openCatalog_uses hlawful fun conn _ => ?_
  cases output with
  | none => exact serves_of_tree_eq rfl
  | some p =>
    exact ⟨conn.tree, refl_of (Keeps stored? conn.place) conn.tree,
      writeReport_reports ⟨p⟩ _ { c with tree := conn.tree }⟩

end Catalog

/-! ### The setup -/

section Setup

variable {env : Environment} {dir : Path} {report : Option Path} {c : Console}

/-- Where a configuration or a database is, the folders for it are as well. -/
theorem createFolders_of_present
    (h : c.tree.isPresent (configPath dir) = true ∨ c.tree.isPresent (databasePath dir) = true) :
    (Work.changeFiles (.createFolder dir) (FileTree.createFolders dir)).run c = .ok () c := by
  have hrun : (FileTree.createFolders dir).run c.tree = .ok () c.tree := by
    rcases h with h | h
    · obtain ⟨loc, e, hloc⟩ := FileTree.isPresent_iff.1 h
      exact FileTree.createFolders_of_join ⟨by decide, by simp [Path.isSlash]⟩
        ⟨by decide, by decide, by decide⟩ hloc
    · obtain ⟨loc, e, hloc⟩ := FileTree.isPresent_iff.1 h
      exact FileTree.createFolders_of_join ⟨by decide, by simp [Path.isSlash]⟩
        ⟨by decide, by decide, by decide⟩ hloc
  rw [changeFiles_eq, hrun]

variable (env dir) in
theorem writeConfig_run (c : Console) : ∃ shown, (Setup.writeConfig env dir).run c =
    match (Config.standard.save (configPath dir)).run c.tree with
    | .ok _ t => .ok () ⟨t, shown⟩
    | .error e t => .error (.writeConfig (configPath dir) e) { c with tree := t } := by
  simp only [Setup.writeConfig, EStateM.run_bind, changeFiles_eq]
  cases (Config.standard.save (configPath dir)).run c.tree with
  | ok _ t => exact ⟨_, rfl⟩
  | error e t => exact ⟨"", rfl⟩

variable (hlawful : env.sqlite.Lawful stored?)
include hlawful

theorem createDatabase_uses : Uses env.sqlite stored? (databasePath dir) report c.tree
    (finalState (Setup.createDatabase env dir) c).tree := by
  rw [Setup.createDatabase]
  rw [← bind_assoc, finalState_bind_printLine]
  exact connect_uses hlawful _ fun conn _ => serves_of_tree_eq rfl

theorem create_leaves (dir : Path) (report : Option Path) (c : Console) :
    Leaves env.sqlite stored? dir report c.tree
      (finalState (Setup.create env dir false) c).tree := by
  by_cases hpresent : c.tree.isPresent (configPath dir) = true ∨
      c.tree.isPresent (databasePath dir) = true
  case neg =>
    rw [not_or, Bool.not_eq_true, Bool.not_eq_true] at hpresent
    exact .begun hpresent.1 hpresent.2
  have hget : (get : Work Console).run c = .ok c c := rfl
  rw [Setup.create, finalState_bind_ok (createFolders_of_present hpresent)]
  simp only [Bool.false_eq_true, if_false, Bool.false_or]
  rw [finalState_bind_ok hget]
  cases hconfig : c.tree.isPresent (configPath dir) with
  | true =>
    simp only [Bool.not_true, Bool.false_eq_true, if_false]
    rw [finalState_bind_print]
    exact .used (createDatabase_uses hlawful)
  | false =>
    simp only [Bool.not_false, if_true]
    obtain ⟨shown, hwrite⟩ := writeConfig_run env dir c
    rw [Config.save] at hwrite
    rcases FileTree.write_run (configPath dir) (Text.Utf8.encode Config.standard.text.toList)
      c.tree with ⟨e, he⟩ | ⟨place, hplace, hok⟩
    · rw [he] at hwrite
      rw [finalState_bind_error hwrite]
      exact .refl dir report c.tree
    · rw [hok] at hwrite
      rw [finalState_bind_ok hwrite, finalState_bind_print]
      exact .configured hconfig hplace (createDatabase_uses (c := ⟨_, shown⟩) hlawful)

end Setup

end EndpointCatalog.Execution
