import EndpointCatalog.Proofs.Execution.Commands
import EndpointCatalog.Proofs.Files.Seat
import EndpointCatalog.Proofs.Store.Plain

/-! Runs one after the other. Runs against one configuration folder, of which none is forced to
begin anew and none reports over the configuration or a file of the database, lose nothing: the
database keeps all of its rows, and a configuration that is apart from the database all of its
text. -/

namespace EndpointCatalog.Execution

open CommandLine (Command Invocation)
open Database (Within)
open FileTree (Touches stays_put)
open Sqlite (beside files)

variable {stored? : FileTree → Location → Option Database}

/-! ### A run -/

section Run

variable {env : Environment} {c : Console} {dir : Path} {report : Option Path}

theorem finalState_ended {α : Type} (x : Work α) (input : Text.Input) (c : Console) :
    finalState ((x >>= fun _ => pure Stage.ended) >>= Stage.finish env input) c =
      finalState x c := by
  rw [finalState, finalState, EStateM.run_bind, EStateM.run_bind]
  cases x.run c <;> rfl

theorem configured_leaves {f : Config → Work (Stage env.sqlite)} (input : Text.Input)
    (hf : ∀ config, Uses env.sqlite stored? (databasePath dir) report c.tree
      (finalState (f config >>= Stage.finish env input) c).tree) :
    Leaves env.sqlite stored? dir report c.tree
      (finalState ((loadConfig dir >>= f) >>= Stage.finish env input) c).tree := by
  rw [bind_assoc]
  rcases loadConfig_run dir c with ⟨e, he⟩ | ⟨config, hok⟩
  · rw [finalState_bind_error he]
    exact .refl dir report c.tree
  · rw [finalState_bind_ok hok]
    exact .used (hf config)

/-- Where a command is asked to put its report. -/
def reportPath? : Command → Option Path
  | .list _ output => output.map (⟨·⟩)
  | _ => none

/-- The command of an invocation, if it has one. -/
def commandOf (env : Environment) (i : Invocation) : Work (Stage env.sqlite) :=
  match i.command with
  | none => return .ended
  | some command => startCommand env (Path.expand env.home i.configDir) command

variable (env) in
/-- The banner in front of a command is no file. -/
theorem execute_eq (i : Invocation) (input : Text.Input) (c : Console) :
    ∃ c₁ : Console, c₁.tree = c.tree ∧ finalState (execute env i input) c =
      finalState (commandOf env i >>= Stage.finish env input) c₁ := by
  simp only [execute, start]
  split
  · refine ⟨{ c with shown := c.shown ++ banner env }, rfl, ?_⟩
    rw [bind_assoc]
    exact finalState_bind_ok rfl
  · exact ⟨c, rfl, rfl⟩

theorem execute_dry {i : Invocation} {a : CommandLine.ScanArguments}
    (hi : i.command = some (.scan a)) (ha : a.dryRun = true) (input : Text.Input) (c : Console) :
    (finalState (execute env i input) c).tree = c.tree := by
  obtain ⟨c₁, hc₁, heq⟩ := execute_eq env i input c
  rw [heq, ← hc₁, commandOf, hi]
  simp only [startCommand]
  rw [bind_assoc]
  rcases loadConfig_run (Path.expand env.home i.configDir) c₁ with ⟨e, he⟩ | ⟨config, hok⟩
  · rw [finalState_bind_error he]
  · rw [finalState_bind_ok hok, finalState_ended, scan_tree_of_dryRun config ha]

/-- What is shown of a menu is no file either. -/
theorem transcript_tree {sqlite : Sqlite} (t : Menu.Transcript (Connection sqlite)) (c : Console) :
    (finalState (do
      Work.setFiles t.db.tree
      Work.print t.output
      if t.broken then throw .unreadableInput : Work Unit) c).tree = t.db.tree := by
  simp only [finalState, EStateM.run_bind]
  cases t.broken <;> rfl

variable (hlawful : env.sqlite.Lawful stored?)
include hlawful

theorem menu_uses (input : Text.Input) (config : Config) :
    Uses env.sqlite stored? (databasePath dir) report c.tree
      (finalState (openMenu env dir config >>= Stage.finish env input) c).tree := by
  rw [openMenu, bind_assoc]
  simp only [pure_bind, Stage.finish]
  refine openCatalog_uses hlawful fun conn hsynced => ?_
  rw [transcript_tree]
  exact serves_of_advances (Menu.run_advances hlawful _ conn input) hsynced

theorem answer_leaves (line : String) (c : Console) :
    Leaves env.sqlite stored? dir report c.tree
      (finalState (Setup.answer env dir line) c).tree := by
  have hprint : (Work.print "\n").run c = .ok () { c with shown := c.shown ++ "\n" } := rfl
  rw [Setup.answer, finalState_bind_ok hprint]
  split
  · exact create_leaves hlawful dir report { c with shown := c.shown ++ "\n" }
  · exact .refl dir report c.tree

theorem setup_leaves (input : Text.Input) :
    Leaves env.sqlite stored? dir report c.tree
      (finalState (startCommand env dir (.init false) >>= Stage.finish env input) c).tree := by
  let c₁ : Console := { c with shown := c.shown ++ Setup.opening env dir }
  have hprint : (Work.print (Setup.opening env dir)).run c = .ok () c₁ := rfl
  have hget : (get : Work Console).run c₁ = .ok c₁ c₁ := rfl
  simp only [startCommand, Setup.start, bind_assoc]
  rw [finalState_bind_ok hprint, finalState_bind_ok hget]
  split
  · have hquestion : (Work.print (Setup.question env dir)).run c₁ =
        .ok () { c₁ with shown := c₁.shown ++ Setup.question env dir } := rfl
    simp only [bind_assoc, pure_bind, if_true]
    rw [finalState_bind_ok hquestion, Stage.finish]
    exact answer_leaves hlawful _ { c₁ with shown := c₁.shown ++ Setup.question env dir }
  · simp only [bind_assoc, pure_bind, Bool.false_eq_true, if_false, Stage.finish]
    have hcreate := create_leaves hlawful dir report c₁
    rw [finalState] at hcreate
    rw [finalState, EStateM.run_bind]
    cases hr : (Setup.create env dir false).run c₁ with
    | ok _ c₂ => rwa [hr] at hcreate
    | error e c₂ => rwa [hr] at hcreate

theorem startCommand_leaves {command : Command} (h : command ≠ .init true) (input : Text.Input) :
    Leaves env.sqlite stored? dir (reportPath? command) c.tree
      (finalState (startCommand env dir command >>= Stage.finish env input) c).tree := by
  cases command with
  | init force =>
    cases force with
    | false => exact setup_leaves hlawful input
    | true => exact absurd rfl h
  | scan a =>
    refine configured_leaves input fun config => ?_
    rw [finalState_ended]
    exact scan_uses hlawful config a
  | add folder controller urls redirect =>
    refine configured_leaves input fun config => ?_
    rw [finalState_ended]
    exact add_uses hlawful folder controller urls redirect
  | list format output =>
    refine configured_leaves input fun config => ?_
    rw [finalState_ended]
    exact list_uses hlawful format output
  | sessions =>
    refine configured_leaves input fun config => ?_
    rw [finalState_ended]
    exact sessions_uses hlawful
  | menu => exact configured_leaves input fun config => menu_uses hlawful input config

theorem execute_leaves {i : Invocation} (h : i.command ≠ some (.init true)) (input : Text.Input)
    (c : Console) : Leaves env.sqlite stored? (Path.expand env.home i.configDir)
      (i.command.bind reportPath?) c.tree (finalState (execute env i input) c).tree := by
  obtain ⟨c₁, hc₁, heq⟩ := execute_eq env i input c
  rw [heq, ← hc₁, commandOf]
  cases hi : i.command with
  | none => exact .refl _ _ c₁.tree
  | some command =>
    exact startCommand_leaves hlawful (fun he => h (hi.trans (congrArg some he))) input

end Run

/-! ### What a run keeps -/

/-- The tables stored in the file at a path. -/
def databaseAt? (stored? : FileTree → Location → Option Database) (t : FileTree) (q : Path) :
    Option Database :=
  match t.resolve q with
  | .ok (loc, .file _) => stored? t loc
  | _ => none

theorem databaseAt?_eq_some {t : FileTree} {q : Path} {db : Database} :
    databaseAt? stored? t q = some db ↔
      ∃ loc bytes, t.resolve q = .ok (loc, .file bytes) ∧ stored? t loc = some db := by
  rw [databaseAt?]
  constructor
  · intro h
    split at h
    next loc bytes hloc => exact ⟨loc, bytes, hloc, h⟩
    next => cases h
  · rintro ⟨loc, bytes, hloc, hdb⟩
    rw [hloc]
    exact hdb

/-- A path leads to a database. -/
structure Seated (stored? : FileTree → Location → Option Database) (q : Path) (loc : Location)
    (db : Database) (t : FileTree) : Prop where
  stored : stored? t loc = some db
  found : ∃ bytes, t.resolve q = .ok (loc, .file bytes)

/-- A path leads to a text, and neither this text nor a link on the way to it stands at one of
some locations. -/
structure Reads (q : Path) (ls : List Location) (loc : Location) (text : Text.Utf8.Bytes)
    (t : FileTree) : Prop where
  apart : loc ∉ ls
  found : (t.unlinked ls).resolve q = .ok (loc, .file text)

/-- A report that goes neither to a file of the database of a path nor to what another path
leads to, whatever has become of the database when it is written. -/
def Aside (sqlite : Sqlite) (database config r : Path) (t : FileTree) : Prop :=
  ∀ loc, sqlite.place t database = .ok loc → ∀ t₁, Touches (files loc) t t₁ →
    ∀ place, t₁.target? r = some place → place ∉ files loc ∧ ∀ e, t₁.resolve config ≠ .ok (place, e)

section Keeps

variable {sqlite : Sqlite} {p q : Path} {report : Option Path} {loc : Location} {db : Database}
  {t t' : FileTree}

theorem Seated.databaseAt? (h : Seated stored? q loc db t) : databaseAt? stored? t q = some db := by
  obtain ⟨bytes, hfound⟩ := h.found
  exact databaseAt?_eq_some.2 ⟨loc, bytes, hfound, h.stored⟩

theorem Seated.entry (h : Seated stored? q loc db t) :
    ∃ bytes, t.entry? loc = some (.file bytes) :=
  h.found.imp fun _ hfound => (FileTree.resolve_eq_ok_iff.1 hfound).2.2

/-- A file elsewhere does not matter. -/
theorem Seated.put (h : Seated stored? q loc db t) {place : Location} {content : Text.Utf8.Bytes}
    (hentry : t.entry? place = none ∨ ∃ old, t.entry? place = some (.file old)) (hne : place ≠ loc)
    (hstored : stored? (t.put place (.file content)) loc = stored? t loc) :
    Seated stored? q loc db (t.put place (.file content)) := by
  obtain ⟨bytes, hfound⟩ := h.found
  refine ⟨hstored.trans h.stored, bytes, (stays_put hentry).resolve hfound ?_ nofun⟩
  rw [FileTree.entry?_put (FileTree.ne_nil_of_free hentry), if_neg hne.symm]
  exact (FileTree.resolve_eq_ok_iff.1 hfound).2.2

variable (hlawful : sqlite.Lawful stored?)
include hlawful

theorem Seated.keeps (h : Seated stored? q loc db t) (hkeeps : Keeps stored? loc t t') :
    ∃ after, Seated stored? q loc after t' ∧ db.Within after := by
  obtain ⟨after, hafter, hwithin⟩ := hkeeps.rows h.stored
  obtain ⟨bytes, hbytes⟩ := hlawful.stored_file hafter
  obtain ⟨_, hfound⟩ := h.found
  exact ⟨after, ⟨hafter, bytes, (hkeeps.stays h.stored).resolve hfound hbytes nofun⟩, hwithin⟩

/-- A file that is none of those of the database does not matter. -/
theorem Seated.put_elsewhere (h : Seated stored? q loc db t) {place : Location}
    (content : Text.Utf8.Bytes)
    (hentry : t.entry? place = none ∨ ∃ old, t.entry? place = some (.file old))
    (hplace : place ∉ files loc) : Seated stored? q loc db (t.put place (.file content)) := by
  refine h.put hentry (fun heq => hplace (heq ▸ List.mem_cons_self)) ?_
  refine hlawful.stored_congr fun other hother => ?_
  rw [FileTree.entry?_put (FileTree.ne_nil_of_free hentry), if_neg]
  rintro rfl
  exact hplace hother

/-- Nor does a new text, even if it stands beside the database. -/
theorem Seated.put_text (h : Seated stored? q loc db t) {place : Location} (text : String)
    (hnone : t.entry? place = none) :
    Seated stored? q loc db (t.put place (.file (Text.Utf8.encode text.toList))) := by
  by_cases hplace : place ∈ files loc
  · obtain ⟨bytes, hbytes⟩ := h.entry
    have hne : place ≠ loc := by
      rintro rfl
      cases hnone.symm.trans hbytes
    have hbeside : place ∈ beside loc := (List.mem_cons.1 hplace).resolve_left hne
    exact h.put (.inl hnone) hne (hlawful.stored_text hbeside hnone)
  · exact h.put_elsewhere hlawful _ (.inl hnone) hplace

/-! ### Rows and texts -/

/-- Using the database of a path keeps its rows, if no report goes to its files. -/
theorem Uses.rows (h : Uses sqlite stored? p report t t') (hp : Sqlite.isUri p = false)
    {e : Entry} (hloc : t.resolve p = .ok (loc, e)) (hseated : Seated stored? q loc db t)
    (config : Path) (hreport : ∀ r, report = some r → Aside sqlite p config r t) :
    ∃ after, Seated stored? q loc after t' ∧ db.Within after := by
  cases h with
  | same => exact ⟨db, hseated, refl_of Within db⟩
  | opened hplace hopen hwritten hclose =>
    cases hlawful.place_found hp hloc hplace
    obtain ⟨first, hfirst, hwithin⟩ := hseated.keeps hlawful hopen
    cases hwritten with
    | same =>
      obtain ⟨after, hafter, hwithin'⟩ := hfirst.keeps hlawful hclose
      exact ⟨after, hafter, trans_of Within hwithin hwithin'⟩
    | @written r target content hr htarget =>
      have hapart := (hreport r hr loc hplace _ hopen.toTouches target htarget).1
      have hput := hfirst.put_elsewhere hlawful content (FileTree.entry?_target htarget) hapart
      obtain ⟨after, hafter, hwithin'⟩ := hput.keeps hlawful hclose
      exact ⟨after, hafter, trans_of Within hwithin hwithin'⟩

theorem Leaves.rows {d : Path} (h : Leaves sqlite stored? d report t t')
    (hp : Sqlite.isUri (databasePath d) = false) {e : Entry}
    (hloc : t.resolve (databasePath d) = .ok (loc, e)) (hseated : Seated stored? q loc db t)
    {config : Path} (hreport : ∀ r, report = some r → Aside sqlite (databasePath d) config r t) :
    ∃ after, Seated stored? q loc after t' ∧ db.Within after := by
  cases h with
  | begun _ hmissing => cases hmissing.symm.trans (FileTree.isPresent_iff.2 ⟨loc, e, hloc⟩)
  | used h => exact h.rows hlawful hp hloc hseated config hreport
  | @configured place _ hconfig hplace h =>
    have hnone : t.entry? place = none := by
      rcases FileTree.target?_cases hplace with ⟨old, hold⟩ | ⟨-, hnone⟩
      · cases hconfig.symm.trans (FileTree.isPresent_iff.2 ⟨place, _, hold⟩)
      · exact hnone
    have hput := hseated.put_text hlawful Config.standard.text hnone
    obtain ⟨bytes, hbytes⟩ := hput.entry
    exact h.rows hlawful hp ((stays_put (.inl hnone)).resolve hloc hbytes nofun) hput config nofun

end Keeps

section Reads

variable {sqlite : Sqlite} {p q : Path} {report : Option Path} {ls : List Location}
  {loc : Location} {bytes : Text.Utf8.Bytes} {t t' : FileTree}

theorem Reads.resolve (h : Reads q ls loc bytes t) : t.resolve q = .ok (loc, .file bytes) :=
  (FileTree.unlinked_stays ls t).resolve h.found
    (FileTree.entry?_of_unlinked (FileTree.resolve_eq_ok_iff.1 h.found).2.2) nofun

theorem Reads.touches (h : Reads q ls loc bytes t) (ht : Touches ls t t') :
    Reads q ls loc bytes t' := by
  have hentry := (ht.entry?_eq h.apart).trans (FileTree.resolve_eq_ok_iff.1 h.resolve).2.2
  exact ⟨h.apart, ht.unlinked_stays.resolve h.found
    (FileTree.entry?_unlinked_of_not_link hentry nofun) nofun⟩

theorem Reads.put (h : Reads q ls loc bytes t) {place : Location} (content : Text.Utf8.Bytes)
    (hentry : t.entry? place = none ∨ ∃ old, t.entry? place = some (.file old))
    (hne : place ≠ loc) : Reads q ls loc bytes (t.put place (.file content)) := by
  have hnew : FileTree.entry? (t.put place (.file content)) loc = some (.file bytes) := by
    rw [FileTree.entry?_put (FileTree.ne_nil_of_free hentry), if_neg hne.symm]
    exact (FileTree.resolve_eq_ok_iff.1 h.resolve).2.2
  exact ⟨h.apart, ((stays_put hentry).unlinked ls).resolve h.found
    (FileTree.entry?_unlinked_of_not_link hnew nofun) nofun⟩

/-- Using the database of a path keeps a text that is apart from its files, if no report goes
to it. -/
theorem Uses.text (h : Uses sqlite stored? p report t t')
    (hq : t.resolve q = .ok (loc, .file bytes))
    (hreads : ∀ place, sqlite.place t p = .ok place → Reads q (files place) loc bytes t)
    (hreport : ∀ r, report = some r → Aside sqlite p q r t) :
    t'.resolve q = .ok (loc, .file bytes) := by
  cases h with
  | same => exact hq
  | @opened place t₁ _ _ hplace hopen hwritten hclose =>
    have hfirst := (hreads place hplace).touches hopen.toTouches
    cases hwritten with
    | same => exact (hfirst.touches hclose.toTouches).resolve
    | @written r target content hr htarget =>
      have hne : target ≠ loc := by
        rintro rfl
        exact (hreport r hr place hplace t₁ hopen.toTouches target htarget).2 _ hfirst.resolve
      have hput := hfirst.put content (FileTree.entry?_target htarget) hne
      exact (hput.touches hclose.toTouches).resolve

end Reads

/-! ### Runs one after the other -/

theorem run_tree (env : Environment) (t : FileTree) (args : List String) (input : Text.Input) :
    (run env t args input).2.tree = match CommandLine.parse args with
      | .error _ => t
      | .ok i => (finalState (execute env i input) ⟨t, ""⟩).tree := by
  rw [run]
  cases CommandLine.parse args with
  | error r => rfl
  | ok i =>
    simp only [finalState]
    cases (execute env i input).run ⟨t, ""⟩ <;> rfl

/-- The folder that an invocation works on. -/
def folderOf (env : Environment) (i : Invocation) : Path := Path.expand env.home i.configDir

/-- An invocation on the configuration folder `dir`, however it spells the folder, that is not
forced to begin anew. -/
structure Careful (stored? : FileTree → Location → Option Database) (dir : Path)
    (env : Environment) (t : FileTree) (i : Invocation) : Prop where
  lawful : env.sqlite.Lawful stored?
  not_uri : Sqlite.isUri (databasePath (folderOf env i)) = false
  config_eq : t.resolve (configPath (folderOf env i)) = t.resolve (configPath dir)
  database_eq : t.resolve (databasePath (folderOf env i)) = t.resolve (databasePath dir)
  unforced : i.command ≠ some (.init true)
  report (r : Path) (h : i.command.bind reportPath? = some r) :
    Aside env.sqlite (databasePath (folderOf env i)) (configPath dir) r t

/-- The text of the configuration is in no file of the database that is opened, nor does the way
to it follow a link in the place of one. -/
structure Apart (stored? : FileTree → Location → Option Database) (dir : Path)
    (env : Environment) (t : FileTree) (i : Invocation) : Prop extends
    Careful stored? dir env t i where
  reads {loc place : Location} {text : Text.Utf8.Bytes}
    (h : env.sqlite.place t (databasePath (folderOf env i)) = .ok loc)
    (hconfig : t.resolve (configPath dir) = .ok (place, .file text)) :
    Reads (configPath dir) (files loc) place text t

/-- Runs one after the other, with a condition on each invocation. -/
inductive History (P : Environment → FileTree → Invocation → Prop) : FileTree → FileTree → Prop
  | nil (t : FileTree) : History P t t
  | run {t t' : FileTree} (env : Environment) (args : List String) (input : Text.Input)
      (h : ∀ i, CommandLine.parse args = .ok i → P env t i)
      (rest : History P (run env t args input).2.tree t') : History P t t'

theorem History.mono {P Q : Environment → FileTree → Invocation → Prop} {t t' : FileTree}
    (h : History P t t') (hPQ : ∀ env t i, P env t i → Q env t i) : History Q t t' := by
  induction h with
  | nil t => exact .nil t
  | run env args input h _ ih => exact .run env args input (fun i hi => hPQ _ _ _ (h i hi)) ih

section Run

variable {env : Environment} {dir : Path} {t : FileTree} {args : List String}

theorem run_rows (input : Text.Input)
    (h : ∀ i, CommandLine.parse args = .ok i → Careful stored? dir env t i) {db : Database}
    (hdb : databaseAt? stored? t (databasePath dir) = some db) :
    ∃ after, databaseAt? stored? (run env t args input).2.tree (databasePath dir) = some after ∧
      db.Within after := by
  rw [run_tree]
  cases hparse : CommandLine.parse args with
  | error r => exact ⟨db, hdb, refl_of Within db⟩
  | ok i =>
    have hcareful := h i hparse
    obtain ⟨loc, bytes, hloc, hstored⟩ := databaseAt?_eq_some.1 hdb
    have hseated : Seated stored? (databasePath dir) loc db t := ⟨hstored, bytes, hloc⟩
    have hplace := hcareful.database_eq.trans hloc
    obtain ⟨after, hafter, hwithin⟩ :=
      (execute_leaves hcareful.lawful hcareful.unforced input ⟨t, ""⟩).rows hcareful.lawful
        hcareful.not_uri hplace hseated hcareful.report
    exact ⟨after, hafter.databaseAt?, hwithin⟩

theorem run_text (input : Text.Input)
    (h : ∀ i, CommandLine.parse args = .ok i → Apart stored? dir env t i) {text : Text.Utf8.Bytes}
    (htext : t.read (configPath dir) = .ok text) :
    (run env t args input).2.tree.read (configPath dir) = .ok text := by
  rw [run_tree]
  cases hparse : CommandLine.parse args with
  | error r => exact htext
  | ok i =>
    have happart := h i hparse
    obtain ⟨loc, hloc⟩ := FileTree.read_eq_ok.1 htext
    have hpresent : t.isPresent (configPath (folderOf env i)) = true :=
      FileTree.isPresent_iff.2 ⟨loc, _, happart.config_eq.trans hloc⟩
    have hleaves := execute_leaves happart.lawful happart.unforced input ⟨t, ""⟩
    refine FileTree.read_eq_ok.2 ⟨loc, ?_⟩
    dsimp only
    generalize (finalState (execute env i input) ⟨t, ""⟩).tree = t' at hleaves
    cases hleaves with
    | begun hmissing => cases hmissing.symm.trans hpresent
    | configured hmissing => cases hmissing.symm.trans hpresent
    | used hused =>
      exact hused.text hloc (fun _ hplace => happart.reads hplace hloc) happart.report

end Run

theorem expand_cfg : Path.expand "home" "cfg" = ⟨"cfg"⟩ := by decide

/-- A database with a page. -/
def onePage : Database := ⟨[⟨1, "v", "a"⟩], 1, [], 0, [], []⟩

/-- A configuration folder that has been set up. -/
def settledFolder : FileTree where
  entries := [(["cfg"], .folder),
    (["cfg", "config.toml"], .file (Text.Utf8.encode "[scan]\n".toList)),
    (["cfg", "ctrlscan.db"], .file (Sqlite.toBytes onePage))]
  workDir := []

def plainly : Environment := ⟨"home", 0, 0, false, .plain⟩

def settledReported : FileTree :=
  (run plainly settledFolder ["--config-dir", "cfg", "list", "-o", "out.txt"] ⟨[], false⟩).2.tree

theorem settledFolder_place : Sqlite.plain.place settledFolder (databasePath ⟨"cfg"⟩) =
    .ok ["cfg", "ctrlscan.db"] := by
  have hlookup : settledFolder.lookup .writing (databasePath ⟨"cfg"⟩) =
      .ok (.found ["cfg", "ctrlscan.db"] (.file (Sqlite.toBytes onePage))) := by cbv
  exact Sqlite.placeOf_of_found (by decide) (by decide) hlookup

theorem settledFolder_config : settledFolder.resolve (configPath ⟨"cfg"⟩) =
    .ok (["cfg", "config.toml"], .file (Text.Utf8.encode "[scan]\n".toList)) := by cbv

/-- A new name in the working folder does not depend on the database. -/
theorem settledFolder_aside : Aside .plain (databasePath ⟨"cfg"⟩) (configPath ⟨"cfg"⟩)
    ⟨"out.txt"⟩ settledFolder := by
  intro loc hloc t₁ ht₁ place hplace
  cases settledFolder_place.symm.trans hloc
  have hmissing : t₁.entry? ["out.txt"] = none := ht₁.entry?_eq (by decide)
  have hstart : FileTree.start t₁.workDir ⟨"out.txt"⟩ = [] := by
    rw [ht₁.workDir_eq]
    rfl
  have hlookup : t₁.lookup .writing ⟨"out.txt"⟩ = .ok (.missing [] "out.txt") :=
    FileTree.lookup_name_missing ⟨by decide, by decide, by decide⟩ hstart (by decide)
      ⟨by decide, by decide, by decide⟩ rfl hmissing .writing
  rw [FileTree.target?, hlookup] at hplace
  cases hplace
  refine ⟨by decide, fun e he => ?_⟩
  cases hmissing.symm.trans (FileTree.resolve_eq_ok_iff.1 he).2.2

theorem settledFolder_apart {i : Invocation} (hdir : i.configDir = "cfg")
    (hforce : i.command ≠ some (.init true))
    (hreport : ∀ r, i.command.bind reportPath? = some r → r = ⟨"out.txt"⟩) :
    Apart Sqlite.tablesAt? ⟨"cfg"⟩ plainly settledFolder i := by
  have hfolder : folderOf plainly i = ⟨"cfg"⟩ := by
    rw [folderOf, hdir]
    exact expand_cfg
  refine ⟨⟨Sqlite.plain_lawful, ?_, ?_, ?_, hforce, fun r hr => ?_⟩, fun hloc hconfig => ?_⟩
  · rw [hfolder]
    decide
  · rw [hfolder]
  · rw [hfolder]
  · rw [hfolder, hreport r hr]
    exact settledFolder_aside
  · rw [hfolder] at hloc
    cases settledFolder_place.symm.trans hloc
    cases settledFolder_config.symm.trans hconfig
    exact ⟨by decide, by cbv⟩

theorem settledFolder_history :
    History (Apart Sqlite.tablesAt? ⟨"cfg"⟩) settledFolder settledReported := by
  have hscan : CommandLine.parse ["--config-dir", "cfg", "scan", "--dry-run", "v"] =
      .ok ⟨false, false, "cfg", some (.scan ⟨some "v", none, none, none, false, false, true⟩)⟩ := by
    decide
  have hlist : CommandLine.parse ["--config-dir", "cfg", "list", "-o", "out.txt"] =
      .ok ⟨false, false, "cfg", some (.list .text (some "out.txt"))⟩ := by decide
  have hscanned : (run plainly settledFolder ["--config-dir", "cfg", "scan", "--dry-run", "v"]
      ⟨[], false⟩).2.tree = settledFolder := by
    rw [run_tree, hscan]
    exact execute_dry rfl rfl ⟨[], false⟩ ⟨settledFolder, ""⟩
  have hreported : History (Apart Sqlite.tablesAt? ⟨"cfg"⟩) settledFolder settledReported := by
    refine .run plainly ["--config-dir", "cfg", "list", "-o", "out.txt"] ⟨[], false⟩
      (fun i hi => ?_) (.nil settledReported)
    cases hlist.symm.trans hi
    exact settledFolder_apart rfl nofun fun r hr => (Option.some.inj hr).symm
  rw [← hscanned] at hreported
  refine .run plainly ["--config-dir", "cfg", "scan", "--dry-run", "v"] ⟨[], false⟩
    (fun i hi => ?_) hreported
  cases hscan.symm.trans hi
  exact settledFolder_apart rfl nofun nofun

/-- A configuration folder in which the database is a link to an empty configuration. -/
def linkedFolder : FileTree where
  entries := [(["cfg"], .folder), (["cfg", "config.toml"], .file []),
    (["cfg", "ctrlscan.db"], .link "config.toml")]
  workDir := []

theorem linkedFolder_read : linkedFolder.read (configPath ⟨"cfg"⟩) = .ok [] := by cbv

theorem linkedFolder_load : Config.load (configPath ⟨"cfg"⟩) linkedFolder = .ok .standard := by
  have hpresent : linkedFolder.isPresent (configPath ⟨"cfg"⟩) = true := by cbv
  have htext : linkedFolder.readText (configPath ⟨"cfg"⟩) = .ok "" := by cbv
  have hparse : Config.parse "".toList = some .standard := by cbv
  simp only [Config.load, hpresent, htext, hparse, Bool.not_true, Bool.false_eq_true, if_false]

/-- The folder with a database begun in the configuration. -/
def linkedBegun : FileTree :=
  linkedFolder.put ["cfg", "config.toml"] (.file (Sqlite.toBytes .empty))

theorem linkedFolder_sessions (c : Console) (h : c.tree = linkedFolder) :
    (finalState (sessions plainly ⟨"cfg"⟩) c).tree = linkedBegun := by
  have hpresent : linkedFolder.isPresent (databasePath ⟨"cfg"⟩) = true := by cbv
  have hlookup : linkedFolder.lookup .writing (databasePath ⟨"cfg"⟩) =
      .ok (.found ["cfg", "config.toml"] (.file [])) := by cbv
  have hplace : Sqlite.plain.place linkedFolder (databasePath ⟨"cfg"⟩) =
      .ok ["cfg", "config.toml"] := Sqlite.placeOf_of_found (by decide) (by decide) hlookup
  have hopen : (Sqlite.plain.connect (databasePath ⟨"cfg"⟩) ["cfg", "config.toml"]).run
      linkedFolder = .ok .empty linkedBegun := rfl
  have hconnect : (Work.connect .plain (.openDatabase (databasePath ⟨"cfg"⟩))
      (databasePath ⟨"cfg"⟩)).run c = .ok ⟨["cfg", "config.toml"], .empty, linkedBegun⟩
        { c with tree := linkedBegun } := by
    rw [connect_eq, h, hplace]
    simp only [hopen]
  rw [sessions, withCatalog, openCatalog_bind, h, if_pos hpresent, plainly,
    finalState_bind_ok hconnect, closing_tree]
  have hnone : Database.empty.sessionsByStart = [] := List.mergeSort_nil
  rw [hnone]
  rfl

end EndpointCatalog.Execution
