import EndpointCatalog.Proofs.Config.RoundTrip
import EndpointCatalog.Proofs.Execution.History
import EndpointCatalog.Proofs.Files.NewFolders

/-! Setups that are forced. A forced setup begins the configuration and the database anew, or
fails. It takes four steps and takes none of them back: folders are created, the old database
is removed, the configuration is written, and a database is created. What is left when it
fails depends on the step that fails. -/

namespace EndpointCatalog.Execution

open CommandLine (Invocation)
open FileTree (AddsNamed ProperName Seat Sought Stays Touches)
open Sqlite (files)

variable {stored? : FileTree → Location → Option Database}

/-! ### What a forced setup leaves -/

/-- Neither the configuration nor the database is a link, and the way to their folder follows no
link in the place of a file of the database. -/
structure Linkless (dir : Path) (t : FileTree) : Prop where
  itself : ∀ p ∈ [configPath dir, databasePath dir], ∀ loc target,
    t.lookup .itself p ≠ .ok (.found loc (.link target))
  way {top : Location} (h : Seat t dir top) :
    Seat (t.unlinked (files (top ++ ["ctrlscan.db"]))) dir top

/-- Elsewhere than at some locations all entries are kept, and only the folder of the setup, if
it was missing, and the folders above it are new. -/
structure Spares (dir : Path) (ls : List Location) (t t' : FileTree) : Prop where
  kept : ∀ loc ∉ ls, ∀ e, t.entry? loc = some e → t'.entry? loc = some e
  new : ∀ loc ∉ ls, ∀ e, t.entry? loc = none → t'.entry? loc = some e → e = .folder ∧
    t.folder? dir = none ∧ ∃ name, loc.getLast? = some name ∧ .name name ∈ dir.components

/-- The locations of the configuration and of the files of the database in a folder. -/
def own (top : Location) : List Location :=
  (top ++ ["config.toml"]) :: files (top ++ ["ctrlscan.db"])

/-- What a setup that has failed leaves of a tree. -/
inductive Fails (stored? : FileTree → Location → Option Database) (dir : Path) (t : FileTree) :
    Failure → FileTree → Prop
  | spared {f : Failure} {t' : FileTree} (h : Spares dir [] t t') : Fails stored? dir t f t'
  -- The configuration is a folder, which turns out when the database is gone already.
  | removed {e : IoError} {t' : FileTree} {top : Location} {content : Text.Utf8.Bytes}
      (h : Spares dir [top ++ ["ctrlscan.db"]] t t')
      (hold : t.entry? (top ++ ["ctrlscan.db"]) = some (.file content))
      (hdatabase : t'.lookup .itself (databasePath dir) = .ok (.missing top "ctrlscan.db"))
      (hconfig : t'.resolve (configPath dir) = .ok (top ++ ["config.toml"], .folder)) :
      Fails stored? dir t (.writeConfig (configPath dir) e) t'
  -- The old database is gone and the configuration is written, but SQLite fails.
  | begun {e : DatabaseFailure} {t' : FileTree} {top : Location} (h : Spares dir (own top) t t')
      (hconfig : t'.resolve (configPath dir) =
        .ok (top ++ ["config.toml"], .file (Text.Utf8.encode Config.standard.text.toList)))
      (hdatabase : ∀ db, stored? t' (top ++ ["ctrlscan.db"]) = some db → db = .empty) :
      Fails stored? dir t (.createDatabase (databasePath dir) e) t'

/-- A standard configuration with a database that has no rows. -/
structure Fresh (stored? : FileTree → Location → Option Database) (dir : Path) (t : FileTree) :
    Prop where
  config : t.read (configPath dir) = .ok (Text.Utf8.encode Config.standard.text.toList)
  load : Config.load (configPath dir) t = .ok .standard
  database : databaseAt? stored? t (databasePath dir) = some .empty

/-- How a forced setup of a tree ends. -/
inductive Renewed (stored? : FileTree → Location → Option Database) (dir : Path) (t : FileTree) :
    EStateM.Result Failure Console Unit → Prop
  | done {c : Console} (h : Fresh stored? dir c.tree) : Renewed stored? dir t (.ok () c)
  | failed {f : Failure} {c : Console} (h : Fails stored? dir t f c.tree) :
      Renewed stored? dir t (.error f c)

variable {dir : Path} {t t₁ t₂ : FileTree} {ls ls' : List Location} {top : Location}

/-! ### What is spared -/

theorem Spares.of_eq (h : Spares dir ls t t₁) (hsub : ls ⊆ ls')
    (heq : ∀ loc ∉ ls', t₂.entry? loc = t₁.entry? loc) : Spares dir ls' t t₂ where
  kept loc hloc e he := (heq loc hloc).trans (h.kept loc (fun hmem => hloc (hsub hmem)) e he)
  new loc hloc e hnone he :=
    h.new loc (fun hmem => hloc (hsub hmem)) e hnone ((heq loc hloc).symm.trans he)

theorem spares_of_named (h : AddsNamed dir t t₁) (hsame : t.folder? dir ≠ none → t₁ = t) :
    Spares dir [] t t₁ where
  kept _ _ _ he := h.kept he
  new _ _ _ hnone he := by
    obtain ⟨hfolder, hname⟩ := h.new hnone he
    refine ⟨hfolder, ?_, hname⟩
    by_contra hdir
    rw [hsame hdir, hnone] at he
    cases he

/-- A file is not new. -/
theorem Spares.file (h : Spares dir ls t t₁) {loc : Location} {content : Text.Utf8.Bytes}
    (hloc : loc ∉ ls) (hfile : t₁.entry? loc = some (.file content)) :
    t.entry? loc = some (.file content) := by
  cases he : t.entry? loc with
  | none => cases (h.new loc hloc _ he hfile).1
  | some e => exact (h.kept loc hloc e he).symm.trans hfile

theorem Spares.erase {loc : Location} {content : Text.Utf8.Bytes} (h : Spares dir [] t t₁)
    (hfile : t₁.entry? loc = some (.file content)) : Spares dir [loc] t (t₁.erase loc) := by
  refine h.of_eq (List.nil_subset _) fun other hother => ?_
  rw [FileTree.entry?_erase (FileTree.ne_nil_of_entry?_file hfile),
    if_neg (fun heq => hother (List.mem_singleton.2 heq))]

/-! ### Names of the setup -/

theorem properName_config : ProperName "config.toml" := by decide

theorem properName_database : ProperName "ctrlscan.db" := by decide

theorem sought_database (h : Sought (configPath dir)) : Sought (databasePath dir) :=
  h.join_of_size_eq properName_config properName_database (by decide)

theorem config_not_mem_files (top : Location) :
    top ++ ["config.toml"] ∉ files (top ++ ["ctrlscan.db"]) := by
  simp [files, Sqlite.beside]

/-- The configuration is not touched when the database beside it is removed. -/
theorem entry?_config_erase {content : Text.Utf8.Bytes}
    (hdatabase : t.entry? (top ++ ["ctrlscan.db"]) = some (.file content)) :
    FileTree.entry? (t.erase (top ++ ["ctrlscan.db"])) (top ++ ["config.toml"]) =
      t.entry? (top ++ ["config.toml"]) := by
  rw [FileTree.entry?_erase (FileTree.ne_nil_of_entry?_file hdatabase), if_neg (by simp)]

/-! ### Steps -/

variable (env : Environment)

section Steps

variable (dir)

theorem printLine_run (text : String) (c : Console) :
    ∃ c₁, (Work.printLine text).run c = .ok () c₁ ∧ c₁.tree = c.tree := ⟨_, rfl, rfl⟩

theorem removeDatabase_run (c : Console) : ∃ shown, (Setup.removeDatabase env dir).run c =
    if c.tree.isPresent (databasePath dir) then
      match (FileTree.remove (databasePath dir)).run c.tree with
      | .ok _ t => .ok () ⟨t, shown⟩
      | .error e t => .error (.removeDatabase (databasePath dir) e) ⟨t, shown⟩
    else .ok () c := by
  simp only [Setup.removeDatabase, EStateM.run_bind, EStateM.run_get]
  split
  · obtain ⟨c₁, hprint, hc₁⟩ := printLine_run
      (Terminal.paint env.color Terminal.Style.yellow.bold "→" ++
        " Deleting existing database (force mode)") c
    refine ⟨c₁.shown, ?_⟩
    rw [EStateM.run_bind, hprint]
    simp only [changeFiles_eq, hc₁]
    cases (FileTree.remove (databasePath dir)).run c.tree <;> rfl
  · exact ⟨"", rfl⟩

theorem removeDatabase_of_absent {c : Console}
    (h : c.tree.isPresent (databasePath dir) = false) :
    (Setup.removeDatabase env dir).run c = .ok () c := by
  obtain ⟨_, hremove⟩ := removeDatabase_run dir env c
  rwa [h, if_neg Bool.false_ne_true] at hremove

theorem createDatabase_run (c : Console) : ∃ shown, (Setup.createDatabase env dir).run c =
    match (Work.connect env.sqlite (.createDatabase (databasePath dir))
      (databasePath dir)).run c with
    | .error f c' => .error f c'
    | .ok conn c' => .ok () ⟨env.sqlite.disconnect conn.place c'.tree, shown⟩ := by
  rw [Setup.createDatabase, EStateM.run_bind]
  cases (Work.connect env.sqlite (.createDatabase (databasePath dir)) (databasePath dir)).run c with
  | ok conn c' => exact ⟨_, rfl⟩
  | error f c' => exact ⟨"", rfl⟩

/-- What is left of a forced setup when the old database has been removed. -/
def begin : Work Unit := do
  Setup.writeConfig env dir
  Setup.createDatabase env dir
  Work.print (Setup.closing env)

theorem create_forced_eq : Setup.create env dir true = (do
    Work.changeFiles (.createFolder dir) (FileTree.createFolders dir)
    Setup.removeDatabase env dir
    begin dir env) := rfl

end Steps

theorem begin_of_error {c : Console} {e : IoError}
    (hsave : (Config.standard.save (configPath dir)).run c.tree = .error e t₁) :
    ∃ c', (begin dir env).run c = .error (.writeConfig (configPath dir) e) c' ∧ c'.tree = t₁ := by
  obtain ⟨shown, hwrite⟩ := writeConfig_run env dir c
  rw [hsave] at hwrite
  refine ⟨{ c with tree := t₁ }, ?_, rfl⟩
  rw [begin, EStateM.run_bind, hwrite]

theorem begin_of_blocked {c : Console} (hseat : Seat c.tree dir top)
    (hsought : Sought (configPath dir))
    (hconfig : c.tree.entry? (top ++ ["config.toml"]) = some .folder) :
    ∃ c', (begin dir env).run c = .error (.writeConfig (configPath dir) .isDirectory) c' ∧
      c'.tree = c.tree := by
  have hsave : (Config.standard.save (configPath dir)).run c.tree =
      .error .isDirectory c.tree := by
    rw [Config.save, FileTree.write_eq, configPath, hseat.lookup_eq properName_config hsought
      .writing (by simp [hconfig]), FileTree.seen, hconfig]
  exact begin_of_error env hsave

theorem removeDatabase_of_file {c : Console} {content : Text.Utf8.Bytes}
    (hseat : Seat c.tree dir top) (hsought : Sought (databasePath dir))
    (hdatabase : c.tree.entry? (top ++ ["ctrlscan.db"]) = some (.file content)) :
    ∃ shown, (Setup.removeDatabase env dir).run c =
      .ok () ⟨c.tree.erase (top ++ ["ctrlscan.db"]), shown⟩ := by
  have hpresent : c.tree.isPresent (databasePath dir) = true := FileTree.isPresent_iff.2
    ⟨_, _, hseat.resolve_eq properName_database hsought hdatabase (by simp)⟩
  obtain ⟨shown, hremove⟩ := removeDatabase_run dir env c
  refine ⟨shown, ?_⟩
  rw [hremove, if_pos hpresent, FileTree.remove_eq, databasePath,
    hseat.lookup_eq properName_database hsought .itself fun _ _ => rfl, FileTree.seen, hdatabase]

section Fresh

variable (hlawful : env.sqlite.Lawful stored?)
  (huri : Sqlite.isUri (databasePath dir) = false)
include hlawful huri

/-- Where there is no database, an empty one is created, or SQLite fails. -/
theorem createDatabase_of_missing {c : Console}
    (hmissing : c.tree.lookup .writing (databasePath dir) = .ok (.missing top "ctrlscan.db")) :
    ∃ c', Touches (files (top ++ ["ctrlscan.db"])) c.tree c'.tree ∧
      (∀ db, stored? c'.tree (top ++ ["ctrlscan.db"]) = some db → db = .empty) ∧
      ((∃ e, (Setup.createDatabase env dir).run c =
          .error (.createDatabase (databasePath dir) e) c') ∨
        (Setup.createDatabase env dir).run c = .ok () c' ∧
          ∃ db, stored? c'.tree (top ++ ["ctrlscan.db"]) = some db) := by
  have hnone := FileTree.walk_missing (FileTree.lookup_eq_ok.1 hmissing).2
  obtain ⟨shown, hrun⟩ := createDatabase_run dir env c
  rw [connect_eq] at hrun
  cases hplace : env.sqlite.place c.tree (databasePath dir) with
  | error e =>
    rw [hplace] at hrun
    refine ⟨c, refl_of (Touches _) c.tree, fun db hdb => ?_, .inl ⟨e, hrun⟩⟩
    obtain ⟨_, hfile⟩ := hlawful.stored_file hdb
    cases hnone.symm.trans hfile
  | ok loc =>
    obtain rfl := hlawful.place_missing huri hmissing hplace
    have htouches := hlawful.connect_touches hplace
    have hnew : ∀ db, stored? (finalState (env.sqlite.connect (databasePath dir)
        (top ++ ["ctrlscan.db"])) c.tree) (top ++ ["ctrlscan.db"]) = some db → db = .empty :=
      fun _ => hlawful.connect_new hplace hnone
    rw [finalState] at htouches hnew
    cases hconnect :
      (env.sqlite.connect (databasePath dir) (top ++ ["ctrlscan.db"])).run c.tree with
    | error e tree =>
      simp only [hplace, hconnect] at hrun htouches hnew
      exact ⟨_, htouches, hnew, .inl ⟨e, hrun⟩⟩
    | ok db tree =>
      have hstored := hlawful.connect_ok hplace hconnect
      simp only [hplace, hconnect] at hrun htouches hnew
      have hkept := hlawful.disconnect_keeps hstored
      refine ⟨_, trans_of (Touches _) htouches (hlawful.disconnect_touches _ _),
        fun after hafter => ?_, .inr ⟨hrun, db, hkept⟩⟩
      exact Option.some.inj (hafter.symm.trans hkept) ▸ hnew db hstored

/-- With the old database out of the way and a free place for the configuration, only SQLite can
fail. -/
theorem begin_of_free {c : Console}
    (hway : Seat (c.tree.unlinked (files (top ++ ["ctrlscan.db"]))) dir top)
    (hsought : Sought (configPath dir))
    (hdatabase : c.tree.entry? (top ++ ["ctrlscan.db"]) = none)
    (hfree : c.tree.entry? (top ++ ["config.toml"]) = none ∨
      ∃ old, c.tree.entry? (top ++ ["config.toml"]) = some (.file old))
    (hspares : Spares dir (own top) t c.tree) :
    Renewed stored? dir t ((begin dir env).run c) := by
  let standard := Text.Utf8.encode Config.standard.text.toList
  have hsave : (Config.standard.save (configPath dir)).run c.tree =
      .ok () (c.tree.put (top ++ ["config.toml"]) (.file standard)) :=
    (hway.stays (FileTree.unlinked_stays _ _)).write_run properName_config hsought hfree standard
  have hput := FileTree.entry?_put (t := c.tree) (by simp : top ++ ["config.toml"] ≠ [])
    (.file standard)
  have hstays : Stays c.tree (c.tree.put (top ++ ["config.toml"]) (.file standard)) :=
    FileTree.stays_put hfree
  have hway₁ := hway.stays (hstays.unlinked (files (top ++ ["ctrlscan.db"])))
  obtain ⟨shown, hwrite⟩ := writeConfig_run env dir c
  rw [hsave] at hwrite
  rw [begin, EStateM.run_bind, hwrite]
  generalize c.tree.put _ _ = t₁ at hput hway₁
  have hnone : t₁.entry? (top ++ ["ctrlscan.db"]) = none := by
    rw [hput, if_neg (by simp), hdatabase]
  have hmissing : t₁.lookup .writing (databasePath dir) = .ok (.missing top "ctrlscan.db") := by
    rw [databasePath, (hway₁.stays (FileTree.unlinked_stays _ _)).lookup_eq properName_database
      (sought_database hsought) .writing (by simp [hnone]), FileTree.seen, hnone]
  obtain ⟨c', htouches, hempty, hends⟩ :=
    createDatabase_of_missing env hlawful huri (c := ⟨t₁, shown⟩) hmissing
  have hseat : Seat c'.tree dir top :=
    (hway₁.stays htouches.unlinked_stays).stays (FileTree.unlinked_stays _ _)
  have hwritten : c'.tree.entry? (top ++ ["config.toml"]) = some (.file standard) := by
    rw [htouches.entry?_eq (config_not_mem_files top), hput, if_pos rfl]
  have hconfig := hseat.resolve_eq properName_config hsought hwritten (by simp)
  rcases hends with ⟨e, herror⟩ | ⟨hok, db, hdb⟩
  · have hspares' : Spares dir (own top) t c'.tree := by
      refine hspares.of_eq (List.Subset.refl _) fun loc hloc => ?_
      obtain ⟨hother, hfiles⟩ := not_or.1 (mt List.mem_cons.2 hloc)
      rw [htouches.entry?_eq hfiles, hput, if_neg hother]
    simp only [EStateM.run_bind, herror]
    exact .failed (.begun hspares' hconfig hempty)
  · have hread := FileTree.read_eq_ok.2 ⟨_, hconfig⟩
    obtain ⟨bytes, hbytes⟩ := hlawful.stored_file hdb
    obtain rfl := hempty db hdb
    simp only [EStateM.run_bind, hok]
    exact .done ⟨hread, Config.load_of_read hread, databaseAt?_eq_some.2 ⟨_, bytes,
      hseat.resolve_eq properName_database (sought_database hsought) hbytes (by simp), hdb⟩⟩

theorem begin_renewed {c : Console}
    (hway : Seat (c.tree.unlinked (files (top ++ ["ctrlscan.db"]))) dir top)
    (hsought : Sought (configPath dir))
    (hdatabase : c.tree.entry? (top ++ ["ctrlscan.db"]) = none)
    (hlink : ∀ target, c.tree.entry? (top ++ ["config.toml"]) ≠ some (.link target))
    (hspares : Spares dir (own top) t c.tree)
    (hblocked : c.tree.entry? (top ++ ["config.toml"]) = some .folder →
      Fails stored? dir t (.writeConfig (configPath dir) .isDirectory) c.tree) :
    Renewed stored? dir t ((begin dir env).run c) := by
  cases hconfig : c.tree.entry? (top ++ ["config.toml"]) with
  | none =>
    exact begin_of_free env hlawful huri hway hsought hdatabase (.inl hconfig) hspares
  | some e =>
    cases e with
    | file old =>
      exact begin_of_free env hlawful huri hway hsought hdatabase (.inr ⟨old, hconfig⟩) hspares
    | link target => exact absurd hconfig (hlink target)
    | folder =>
      obtain ⟨c', hrun, htree⟩ :=
        begin_of_blocked env (hway.stays (FileTree.unlinked_stays _ _)) hsought hconfig
      rw [hrun]
      exact .failed (htree ▸ hblocked hconfig)

end Fresh

section Remove

variable {c : Console} (h : Spares dir [] t c.tree)
include h

/-- Without a folder in which they could be looked up, neither the database is removed nor the
configuration written. -/
theorem remove_begin_of_error
    (herror : ∀ purpose, ∀ p ∈ [configPath dir, databasePath dir],
      ∃ e, c.tree.lookup purpose p = .error e) :
    Renewed stored? dir t ((do Setup.removeDatabase env dir; begin dir env).run c) := by
  obtain ⟨e, hdatabase⟩ := herror .target (databasePath dir) (by simp)
  obtain ⟨e', hconfig⟩ := herror .writing (configPath dir) (by simp)
  have habsent : c.tree.isPresent (databasePath dir) = false := by
    rw [FileTree.isPresent, FileTree.resolve, hdatabase]
    rfl
  have hsave : (Config.standard.save (configPath dir)).run c.tree = .error e' c.tree := by
    rw [Config.save, FileTree.write_eq, hconfig]
  obtain ⟨c', hrun, htree⟩ := begin_of_error env hsave
  rw [EStateM.run_bind, removeDatabase_of_absent dir env habsent]
  simp only [hrun]
  exact .failed (.spared (htree ▸ h))

theorem remove_begin_of_seat (hlawful : env.sqlite.Lawful stored?)
    (huri : Sqlite.isUri (databasePath dir) = false) (hlinks : Linkless dir c.tree)
    (hseat : Seat c.tree dir top) (hsought : Sought (configPath dir)) :
    Renewed stored? dir t ((do Setup.removeDatabase env dir; begin dir env).run c) := by
  have hsought' := sought_database hsought
  have hconfigLink (target : String) :
      c.tree.entry? (top ++ ["config.toml"]) ≠ some (.link target) := by
    intro htarget
    refine hlinks.itself (configPath dir) (by simp) (top ++ ["config.toml"]) target ?_
    rw [configPath, hseat.lookup_eq properName_config hsought .itself fun _ _ => rfl,
      FileTree.seen, htarget]
  have hitself : c.tree.lookup .itself (databasePath dir) =
      .ok (c.tree.seen top "ctrlscan.db") :=
    hseat.lookup_eq properName_database hsought' .itself fun _ _ => rfl
  rw [EStateM.run_bind]
  cases hdatabase : c.tree.entry? (top ++ ["ctrlscan.db"]) with
  | none =>
    have habsent : c.tree.isPresent (databasePath dir) = false := by
      rw [FileTree.isPresent, databasePath,
        hseat.resolve_missing properName_database hsought' hdatabase]
      rfl
    rw [removeDatabase_of_absent dir env habsent]
    exact begin_renewed env hlawful huri (hlinks.way hseat) hsought hdatabase hconfigLink
      (h.of_eq (List.nil_subset _) fun _ _ => rfl) fun _ => .spared h
  | some e =>
    cases e with
    | link target =>
      refine absurd ?_ (hlinks.itself (databasePath dir) (by simp) (top ++ ["ctrlscan.db"]) target)
      rw [hitself, FileTree.seen, hdatabase]
    | folder =>
      have hpresent : c.tree.isPresent (databasePath dir) = true := FileTree.isPresent_iff.2
        ⟨_, _, hseat.resolve_eq properName_database hsought' hdatabase (by simp)⟩
      obtain ⟨_, hremove⟩ := removeDatabase_run dir env c
      rw [hremove, if_pos hpresent, FileTree.remove_eq, hitself, FileTree.seen, hdatabase]
      exact .failed (.spared h)
    | file content =>
      have hbeside := entry?_config_erase hdatabase
      have hspares := h.erase hdatabase
      have hstays := FileTree.stays_erase hdatabase
      have hgone : FileTree.entry? (c.tree.erase (top ++ ["ctrlscan.db"]))
          (top ++ ["ctrlscan.db"]) = none := by
        rw [FileTree.entry?_erase (FileTree.ne_nil_of_entry?_file hdatabase), if_pos rfl]
      obtain ⟨shown, hremove⟩ := removeDatabase_of_file env hseat hsought' hdatabase
      rw [hremove]
      refine begin_renewed (c := ⟨c.tree.erase (top ++ ["ctrlscan.db"]), shown⟩) env hlawful huri
        ((hlinks.way hseat).stays (hstays.unlinked _)) hsought hgone
        (fun target => hbeside ▸ hconfigLink target) (hspares.of_eq ?_ fun _ _ => rfl)
        fun hconfig => ?_
      · exact List.cons_subset.2 ⟨List.mem_cons_of_mem _ List.mem_cons_self, List.nil_subset _⟩
      · have hseat' := hseat.stays hstays
        refine .removed hspares (h.file List.not_mem_nil hdatabase) ?_
          (hseat'.resolve_eq properName_config hsought hconfig (by simp))
        rw [databasePath, hseat'.lookup_eq properName_database hsought' .itself fun _ _ => rfl,
          FileTree.seen, hgone]

end Remove

theorem create_renewed (hlawful : env.sqlite.Lawful stored?)
    (huri : Sqlite.isUri (databasePath dir) = false) (c : Console)
    (hlinks : ∀ t₁, (FileTree.createFolders dir).run c.tree = .ok () t₁ → Linkless dir t₁) :
    Renewed stored? dir c.tree ((Setup.create env dir true).run c) := by
  obtain ⟨t₁, hnamed, hfolders⟩ := FileTree.createFolders_named dir c.tree
  have hsame : c.tree.folder? dir ≠ none → t₁ = c.tree := by
    intro hdir
    obtain ⟨top, htop⟩ := Option.ne_none_iff_exists'.1 hdir
    have hkept := FileTree.createFolders_of_folder htop
    rcases hfolders with hok | ⟨e, herror⟩
    · cases hok.symm.trans hkept
      rfl
    · cases herror.symm.trans hkept
  have hspares := spares_of_named hnamed hsame
  rw [create_forced_eq, EStateM.run_bind, changeFiles_eq]
  rcases hfolders with hok | ⟨e, herror⟩
  · rw [hok]
    have hnone (hmissing : ∀ purpose, ∀ p ∈ [configPath dir, databasePath dir],
        ∃ e, t₁.lookup purpose p = .error e) : Renewed stored? dir c.tree _ :=
      remove_begin_of_error (c := { c with tree := t₁ }) env hspares hmissing
    by_cases hsought : Sought (configPath dir)
    · rcases FileTree.seat_or_error t₁ dir with ⟨top, hseat⟩ | hmissing
      · exact remove_begin_of_seat (c := { c with tree := t₁ }) env hspares hlawful huri
          (hlinks t₁ hok) hseat hsought
      · refine hnone fun purpose p hp => ?_
        rcases List.mem_pair.1 hp with rfl | rfl
        · exact hmissing purpose "config.toml" properName_config
        · exact hmissing purpose "ctrlscan.db" properName_database
    · refine hnone fun purpose p hp => FileTree.exists_error_of_not_sought purpose fun hp' => ?_
      rcases List.mem_pair.1 hp with rfl | rfl
      · exact hsought hp'
      · exact hsought (hp'.join_of_size_eq properName_database properName_config (by decide))
  · rw [herror]
    exact .failed (.spared hspares)

/-! ### Runs -/

theorem startCommand_forced (dir : Path) (input : Text.Input) (c : Console) :
    ∃ c₁, c₁.tree = c.tree ∧
      (startCommand env dir (.init true) >>= Stage.finish env input).run c =
        (Setup.create env dir true).run c₁ := by
  refine ⟨{ c with shown := c.shown ++ Setup.opening env dir }, rfl, ?_⟩
  have hprint : (Work.print (Setup.opening env dir)).run c =
      .ok () { c with shown := c.shown ++ Setup.opening env dir } := rfl
  simp only [startCommand, Setup.start, bind_assoc, EStateM.run_bind, hprint, EStateM.run_get,
    Bool.not_true, Bool.false_and, Bool.false_eq_true, if_false]
  cases (Setup.create env dir true).run { c with shown := c.shown ++ Setup.opening env dir } <;> rfl

/-- A forced setup asks for nothing: it is what its command does. -/
theorem execute_forced {i : Invocation} (hi : i.command = some (.init true)) (input : Text.Input)
    (c : Console) : ∃ c₁, c₁.tree = c.tree ∧ (execute env i input).run c =
      (Setup.create env (Path.expand env.home i.configDir) true).run c₁ := by
  have hexecute : ∃ c₁ : Console, c₁.tree = c.tree ∧ (execute env i input).run c =
      (startCommand env (Path.expand env.home i.configDir) (.init true) >>=
        Stage.finish env input).run c₁ := by
    simp only [execute, start, hi]
    split
    · exact ⟨{ c with shown := c.shown ++ banner env }, rfl, rfl⟩
    · exact ⟨c, rfl, rfl⟩
  obtain ⟨c₁, hc₁, heq⟩ := hexecute
  obtain ⟨c₂, hc₂, heq'⟩ := startCommand_forced env (Path.expand env.home i.configDir) input c₁
  exact ⟨c₂, hc₂.trans hc₁, heq.trans heq'⟩

/-- The database is removed before the configuration turns out to be a folder. -/
theorem create_of_blocked {c : Console} {content : Text.Utf8.Bytes} (hc : c.tree = t)
    (hdir : (FileTree.createFolders dir).run t = .ok () t)
    (hseat : Seat t dir top) (hsought : Sought (configPath dir))
    (hconfig : t.entry? (top ++ ["config.toml"]) = some .folder)
    (hdatabase : t.entry? (top ++ ["ctrlscan.db"]) = some (.file content)) :
    ∃ c', (Setup.create env dir true).run c =
        .error (.writeConfig (configPath dir) .isDirectory) c' ∧
      c'.tree = t.erase (top ++ ["ctrlscan.db"]) := by
  subst hc
  obtain ⟨shown, hremove⟩ := removeDatabase_of_file env hseat (sought_database hsought) hdatabase
  obtain ⟨c', hbegin, htree⟩ := begin_of_blocked
    (c := ⟨c.tree.erase (top ++ ["ctrlscan.db"]), shown⟩) env
    (hseat.stays (FileTree.stays_erase hdatabase)) hsought
    ((entry?_config_erase hdatabase).trans hconfig)
  refine ⟨c', ?_, htree⟩
  rw [create_forced_eq, EStateM.run_bind, changeFiles_eq, hdir]
  simp only [EStateM.run_bind, hremove, hbegin]

def blockedFolder : FileTree where
  entries := [(["cfg"], .folder), (["cfg", "config.toml"], .folder),
    (["cfg", "ctrlscan.db"], .file (Sqlite.toBytes onePage))]
  workDir := []

/-- A forced setup of the folder. -/
def blockedRun : Ending × Console :=
  run plainly blockedFolder ["--config-dir", "cfg", "init", "--force"] ⟨[], false⟩

theorem blockedRun_parse : CommandLine.parse ["--config-dir", "cfg", "init", "--force"] =
    .ok ⟨false, false, "cfg", some (.init true)⟩ := by decide

theorem blockedFolder_created : (FileTree.createFolders ⟨"cfg"⟩).run blockedFolder =
    .ok () blockedFolder := by
  have hfolder : blockedFolder.folder? ⟨"cfg"⟩ = some ["cfg"] := by cbv
  exact FileTree.createFolders_of_folder hfolder

/-- The folder is found in every tree that has it. -/
theorem seat_cfg (h : t.entry? ["cfg"] = some .folder) (hworkDir : t.workDir = []) :
    Seat t ⟨"cfg"⟩ ["cfg"] := by
  have hahead : Path.ahead ⟨"cfg"⟩ = ["cfg"] := by cbv
  have hstart : FileTree.start t.workDir ⟨"cfg"⟩ = [] := by
    rw [hworkDir]
    rfl
  refine ⟨h, FileTree.maxLinks, ?_⟩
  rw [hahead, hstart]
  exact .down rfl ⟨by decide, by decide, by decide⟩ h (by simp) .done

theorem blockedFolder_linkless : Linkless ⟨"cfg"⟩ blockedFolder := by
  have hconfig : blockedFolder.lookup .itself (configPath ⟨"cfg"⟩) =
      .ok (.found ["cfg", "config.toml"] .folder) := by cbv
  have hdatabase : blockedFolder.lookup .itself (databasePath ⟨"cfg"⟩) =
      .ok (.found ["cfg", "ctrlscan.db"] (.file (Sqlite.toBytes onePage))) := by cbv
  refine ⟨fun p hp loc target => ?_, fun {top} h => ?_⟩
  · rcases List.mem_pair.1 hp with rfl | rfl
    · simp [hconfig]
    · simp [hdatabase]
  · have hsought : Sought (configPath ⟨"cfg"⟩) := ⟨by decide, by decide, by decide⟩
    have hseen := h.lookup_eq properName_config hsought .itself fun _ _ => rfl
    rw [← configPath, hconfig, FileTree.seen] at hseen
    split at hseen
    · cases hseen
    · obtain ⟨hplace, -⟩ := FileTree.Lookup.found.inj (Except.ok.inj hseen)
      have hsplit : ["cfg"] ++ ["config.toml"] = top ++ ["config.toml"] := hplace
      obtain rfl : ["cfg"] = top := List.append_inj_left' hsplit rfl
      exact seat_cfg (FileTree.entry?_unlinked_of_not_link rfl (by simp)) rfl

end EndpointCatalog.Execution
