import EndpointCatalog.Proofs.Files.Touched
import EndpointCatalog.Proofs.Store.Extension
import EndpointCatalog.Store.Sqlite

/-! Databases in files. What the catalog relies on is that SQLite opens the file that a path
names, keeps to the files of the database, carries out a statement as a whole or not at all,
and finds what it has stored. From this it follows what statements leave of an open
database. -/

namespace EndpointCatalog

open FileTree (Stays Touches)

/-! ### Growth of a database -/

namespace Database

/-- Each table of a database is the front of that table in another one. -/
structure Within (db after : Database) : Prop where
  pages : db.pages <+: after.pages
  endpoints : db.endpoints <+: after.endpoints
  sessions : db.sessions <+: after.sessions

instance : IsPreorder Database Within where
  refl _ := ⟨List.prefix_rfl, List.prefix_rfl, List.prefix_rfl⟩
  trans _ _ _ h h' :=
    ⟨h.pages.trans h'.pages, h.endpoints.trans h'.endpoints, h.sessions.trans h'.sessions⟩

theorem within_of_grows {db after : Database}
    (h : (StoreView.rows db).Grows (StoreView.rows after))
    (hs : db.sessions <+: after.sessions) : db.Within after := ⟨h.pages, h.endpoints, hs⟩

theorem within_of_extends {db after : Database} (h : Extends db after) : db.Within after := by
  obtain ⟨_, hi⟩ := h
  have hs : after.sessions = db.sessions := congrArg Prod.fst hi.setting_eq
  exact within_of_grows hi.grows (hs ▸ List.prefix_rfl)

end Database

/-! ### What SQLite is relied on for -/

namespace Sqlite

theorem not_mem_beside (loc : Location) : loc ∉ beside loc := by
  intro h
  obtain ⟨ending, hending, heq⟩ := List.mem_map.1 h
  rcases List.eq_nil_or_concat' loc with rfl | ⟨folder, name, rfl⟩
  · simp at heq
  · have hname : name.toList ++ ending.toList = name.toList := by
      rw [← String.toList_append]
      exact congrArg String.toList (by simpa using heq)
    have hempty := String.toList_eq_nil_iff.1 (List.append_right_eq_self.1 hname)
    subst hempty
    simp at hending

/-- What is relied on. The files of a database store the tables that `stored?` gives, if they
store any. Links are never followed from the names of these files, and beside tables that are
stored they stay. -/
structure Lawful (sqlite : Sqlite) (stored? : FileTree → Location → Option Database) : Prop where
  -- Links are followed to their end, which no URI needs to name.
  place_found {t : FileTree} {p : Path} {loc place : Location} {e : Entry} (hp : isUri p = false)
    (h : t.resolve p = .ok (loc, e)) (hplace : sqlite.place t p = .ok place) : place = loc
  place_missing {t : FileTree} {p : Path} {folder place : Location} {name : String}
    (hp : isUri p = false) (h : t.lookup .writing p = .ok (.missing folder name))
    (hplace : sqlite.place t p = .ok place) : place = folder ++ [name]
  -- A journal or a log is of no use without the file it belongs to.
  stored_file {t : FileTree} {loc : Location} {db : Database} (h : stored? t loc = some db) :
    ∃ bytes, t.entry? loc = some (.file bytes)
  stored_congr {t t' : FileTree} {loc : Location}
    (h : ∀ place ∈ files loc, t'.entry? place = t.entry? place) : stored? t' loc = stored? t loc
  -- Journals and logs begin with bytes that no text begins with, and an index is made anew.
  stored_text {t : FileTree} {loc place : Location} {text : String} (hplace : place ∈ beside loc)
    (h : t.entry? place = none) :
    stored? (t.put place (.file (Text.Utf8.encode text.toList))) loc = stored? t loc
  connect_touches {t : FileTree} {p : Path} {loc : Location} (h : sqlite.place t p = .ok loc) :
    Touches (files loc) t (finalState (sqlite.connect p loc) t)
  connect_ok {t t' : FileTree} {p : Path} {loc : Location} {db : Database}
    (h : sqlite.place t p = .ok loc) (hrun : (sqlite.connect p loc).run t = .ok db t') :
    stored? t' loc = some db
  -- The schema is only created where it is missing.
  connect_keeps {t : FileTree} {p : Path} {loc : Location} {db : Database}
    (h : sqlite.place t p = .ok loc) (hdb : stored? t loc = some db) :
    stored? (finalState (sqlite.connect p loc) t) loc = some db
  connect_stays {t : FileTree} {p : Path} {loc : Location} {db : Database}
    (h : sqlite.place t p = .ok loc) (hdb : stored? t loc = some db) :
    Stays t (finalState (sqlite.connect p loc) t)
  -- A journal or a log that is left of another database does not come to life again.
  connect_new {t : FileTree} {p : Path} {loc : Location} {db : Database}
    (h : sqlite.place t p = .ok loc) (hnone : t.entry? loc = none)
    (hdb : stored? (finalState (sqlite.connect p loc) t) loc = some db) : db = .empty
  -- A commit is atomic.
  commit_touches (t : FileTree) (loc : Location) (before after : Database) :
    Touches (files loc) t (finalState (sqlite.commit loc before after) t)
  commit_ok {t t' : FileTree} {loc : Location} {before after : Database}
    (h : stored? t loc = some before)
    (hrun : (sqlite.commit loc before after).run t = .ok () t') : stored? t' loc = some after
  commit_error {t t' : FileTree} {loc : Location} {before after : Database} {e : DatabaseFailure}
    (h : stored? t loc = some before)
    (hrun : (sqlite.commit loc before after).run t = .error e t') : stored? t' loc = some before
  commit_stays {t : FileTree} {loc : Location} {before : Database} (after : Database)
    (h : stored? t loc = some before) : Stays t (finalState (sqlite.commit loc before after) t)
  -- Closing a database moves what is in its log to its file.
  disconnect_touches (t : FileTree) (loc : Location) :
    Touches (files loc) t (sqlite.disconnect loc t)
  disconnect_keeps {t : FileTree} {loc : Location} {db : Database} (h : stored? t loc = some db) :
    stored? (sqlite.disconnect loc t) loc = some db
  disconnect_stays {t : FileTree} {loc : Location} {db : Database} (h : stored? t loc = some db) :
    Stays t (sqlite.disconnect loc t)

end Sqlite

/-! ### Open databases -/

namespace Connection

open Sqlite (Lawful files)

variable {sqlite : Sqlite} {stored? : FileTree → Location → Option Database}
  {R : Database → Database → Prop}

/-- The tables of a connection are the ones that are stored. -/
def Synced (stored? : FileTree → Location → Option Database) (c : Connection sqlite) : Prop :=
  stored? c.tree c.place = some c.db

/-- A connection after statements that have taken its database along a relation. -/
structure Advances (stored? : FileTree → Location → Option Database)
    (R : Database → Database → Prop) (c c' : Connection sqlite) : Prop where
  place_eq : c'.place = c.place
  touches : Touches (files c.place) c.tree c'.tree
  stays (h : c.Synced stored?) : Stays c.tree c'.tree
  synced (h : c.Synced stored?) : c'.Synced stored?
  database : R c.db c'.db

theorem Advances.mono {S : Database → Database → Prop} {c c' : Connection sqlite}
    (h : Advances stored? R c c') (hRS : R c.db c'.db → S c.db c'.db) : Advances stored? S c c' :=
  ⟨h.place_eq, h.touches, h.stays, h.synced, hRS h.database⟩

theorem Advances.comp {S T : Database → Database → Prop} {c c' c'' : Connection sqlite}
    (h : Advances stored? R c c') (h' : Advances stored? S c' c'')
    (hRST : R c.db c'.db → S c'.db c''.db → T c.db c''.db) : Advances stored? T c c'' := by
  have htouches := h'.touches
  rw [h.place_eq] at htouches
  exact ⟨h'.place_eq.trans h.place_eq, trans_of (Touches (files c.place)) h.touches htouches,
    fun hs => trans_of Stays (h.stays hs) (h'.stays (h.synced hs)),
    fun hs => h'.synced (h.synced hs), hRST h.database h'.database⟩

instance [IsPreorder Database R] : IsPreorder (Connection sqlite) (Advances stored? R) where
  refl c := ⟨rfl, refl_of (Touches (files c.place)) c.tree, fun _ => refl_of Stays c.tree, id,
    refl_of R c.db⟩
  trans _ _ _ h h' := h.comp h' (trans_of R)

section Statements

variable {α : Type}

theorem statement_eq (change : StoreM Database α) (c : Connection sqlite) :
    (statement change).run c = match change.run c.db with
      | .error e _ => .error e c
      | .ok a db =>
        match (sqlite.commit c.place c.db db).run c.tree with
        | .ok _ tree => .ok a { c with db, tree }
        | .error e tree => .error (.database e) { c with tree } := rfl

variable (hlawful : sqlite.Lawful stored?) (change : StoreM Database α)
include hlawful

/-- A statement either fails and changes no table, or does what it should. -/
theorem statement_cases (c : Connection sqlite) :
    (∃ e c', (statement change).run c = .error e c' ∧ Advances stored? Eq c c') ∨
      ∃ a c', (statement change).run c = .ok a c' ∧
        Advances stored? (fun db db' => change.run db = .ok a db') c c' := by
  rw [statement_eq]
  cases hchange : change.run c.db with
  | error e db => exact .inl ⟨e, c, rfl, refl_of (Advances stored? Eq) c⟩
  | ok a db =>
    have htouches := hlawful.commit_touches c.tree c.place c.db db
    have hstays (h : c.Synced stored?) := hlawful.commit_stays db h
    simp only [finalState] at htouches hstays
    cases hcommit : (sqlite.commit c.place c.db db).run c.tree with
    | ok _ tree =>
      simp only [hcommit] at htouches hstays
      refine .inr ⟨a, { c with db, tree }, by simp only [hcommit], ?_⟩
      exact ⟨rfl, htouches, hstays, fun h => hlawful.commit_ok h hcommit, hchange⟩
    | error e tree =>
      simp only [hcommit] at htouches hstays
      refine .inl ⟨.database e, { c with tree }, by simp only [hcommit], ?_⟩
      exact ⟨rfl, htouches, hstays, fun h => hlawful.commit_error h hcommit, rfl⟩

variable {change}

theorem statement_follows [IsPreorder Database R] (h : Follows R change) :
    Follows (Advances stored? R) (statement change : StoreM (Connection sqlite) α) := by
  intro c
  rw [finalState]
  rcases statement_cases hlawful change c with ⟨e, c', hrun, hc'⟩ | ⟨a, c', hrun, hc'⟩
  · rw [hrun]
    exact hc'.mono fun hdb => hdb ▸ refl_of R c.db
  · rw [hrun]
    refine hc'.mono fun hdb => ?_
    have hdb' := h c.db
    rwa [finalState, hdb] at hdb'

end Statements

theorem creates_advances (hlawful : sqlite.Lawful stored?) :
    Creates (Advances stored? Extends : Connection sqlite → Connection sqlite → Prop) where
  page folder controller := statement_follows hlawful (createPage_follows folder controller)
  endpoint e := statement_follows hlawful (createEndpoint_follows e)
  endpoints batch := statement_follows hlawful (createEndpoints_follows batch)

end Connection

end EndpointCatalog
