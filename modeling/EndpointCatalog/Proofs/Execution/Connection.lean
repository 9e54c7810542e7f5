import EndpointCatalog.Menu.Run
import EndpointCatalog.Proofs.Scan.Recorded
import EndpointCatalog.Proofs.Store.Sqlite

/-! Work on an open database. Scans, entries by hand and the menu carry out statements one after
the other, any of which may fail. Whatever becomes of them, no row is lost: new rows come behind
the old ones, and of the sessions only the one that was opened last is changed. -/

namespace EndpointCatalog

open Connection (Advances)
open Database (Within)

variable {sqlite : Sqlite} {stored? : FileTree → Location → Option Database}

/-! ### Recorded scans -/

/-- Changing the session that was added last keeps all rows that were there before it. -/
theorem Database.within_updateSession {db after : Database} {s : Session}
    (hs : s.id = db.nextSession) (h : after.sessions = db.sessions ++ [s])
    (hgrows : (StoreView.rows db).Grows (StoreView.rows after)) (change : Session → Session) :
    db.Within (after.updateSession db.nextSession change) := by
  rw [updateSession_last hs h]
  exact within_of_grows hgrows (List.prefix_append _ _)

namespace Scan

theorem close_store {σ : Type} [RecordingStore σ] (ended : Int) (session : Nat) (o : Outcome σ) :
    (close ended session o).2 = match o.result with
      | .ok summary => finalState (RecordingStore.completeSession ended session
          summary.filesScanned summary.endpointsAdded) o.store
      | .error _ => finalState (RecordingStore.failSession ended session) o.store := by
  rw [close]
  cases o.result with
  | ok summary =>
    simp only [finalState]
    cases (RecordingStore.completeSession ended session summary.filesScanned
      summary.endpointsAdded).run o.store <;> rfl
  | error e =>
    simp only [finalState]
    cases (RecordingStore.failSession ended session).run o.store <;> rfl

variable (hlawful : sqlite.Lawful stored?)
include hlawful

theorem createSession_cases (started : Int) (root : String) (c : Connection sqlite) :
    (∃ e c₁, (RecordingStore.createSession started root).run c = .error e c₁ ∧
      Advances stored? Eq c c₁) ∨
    ∃ c₁, (RecordingStore.createSession started root).run c = .ok c.db.nextSession c₁ ∧
      Advances stored? (fun db after => after = db.opened started root) c c₁ := by
  have hrun : (RecordingStore.createSession started root : StoreM (Connection sqlite) Nat) =
      Connection.statement (Database.createSession started root) := rfl
  rw [hrun]
  refine (Connection.statement_cases hlawful (Database.createSession started root) c).imp_right ?_
  rintro ⟨session, c₁, hok, hc₁⟩
  have hdb := hc₁.database
  rw [Database.createSession_run] at hdb
  cases hguard : c.db.sessionGuard? with
  | some g =>
    rw [hguard] at hdb
    cases hdb
  | none =>
    rw [hguard] at hdb
    obtain ⟨rfl, hopened⟩ := EStateM.Result.ok.inj hdb
    exact ⟨c₁, hok, hc₁.mono fun _ => hopened.symm⟩

/-- Closing a session keeps what was there before it was opened. -/
theorem close_advances (ended : Int) {db : Database} {s : Session}
    {o : Outcome (Connection sqlite)} (hs : s.id = db.nextSession)
    (h : o.store.db.sessions = db.sessions ++ [s])
    (hgrows : (StoreView.rows db).Grows (StoreView.rows o.store.db)) :
    Advances stored? (fun _ after => db.Within after) o.store (close ended db.nextSession o).2 := by
  have hmark (change : Session → Session) : Advances stored? (fun _ after => db.Within after)
      o.store (finalState (Connection.statement (modify (·.updateSession db.nextSession change)))
        o.store) := by
    rw [finalState]
    rcases Connection.statement_cases hlawful (modify (·.updateSession db.nextSession change))
      o.store with ⟨e, c', hrun, hc'⟩ | ⟨_, c', hrun, hc'⟩
    · rw [hrun]
      exact hc'.mono fun hdb =>
        hdb ▸ Database.within_of_grows hgrows (h ▸ List.prefix_append _ _)
    · rw [hrun]
      refine hc'.mono fun hdb => ?_
      rw [← (EStateM.Result.ok.inj hdb).2]
      exact Database.within_updateSession hs h hgrows change
  rw [close_store]
  cases o.result with
  | ok summary => exact hmark _
  | error e => exact hmark _

theorem scanRecorded_advances (tree : FileTree) (started ended : Int) (options : ScanOptions)
    (root : Path) (c : Connection sqlite) :
    Advances stored? Within c (scanRecorded tree started ended options root c).2 := by
  rw [scanRecorded]
  split
  · exact refl_of (Advances stored? Within) c
  rcases createSession_cases hlawful started root.text c with ⟨e, c₁, hrun, hc₁⟩ | ⟨c₁, hrun, hc₁⟩
  · rw [hrun]
    exact hc₁.mono fun hdb => hdb ▸ refl_of Within c.db
  · rw [hrun]
    have hscan := (Request.below root).follows_run (Connection.creates_advances hlawful)
      tree options c₁
    obtain ⟨_, hi⟩ := hscan.database
    rw [hc₁.database] at hi
    have hsessions : ((Request.below root).run tree options c₁).store.db.sessions =
        c.db.sessions ++ [c.db.newSession started root.text] := congrArg Prod.fst hi.setting_eq
    have hclosed : Advances stored? (fun _ after => c.db.Within after) c₁ _ :=
      hscan.comp (close_advances hlawful ended rfl hsessions hi.grows)
        fun _ hwithin => hwithin
    exact hc₁.comp hclosed fun _ hwithin => hwithin

end Scan

/-! ### The menu -/

namespace Menu

variable {σ : Type} [RecordingStore σ] {R : σ → σ → Prop} (m : Setting)

section Scan

variable (hscan : ∀ root db, R db (Scan.scanRecorded m.tree m.now m.later m.options root db).2)
include hscan

theorem scan_follows (root : Path) (db : σ) : R db (scan m root db).2 := by
  have h := hscan root db
  rw [scan]
  split
  next hs => rwa [hs] at h
  next hs => rwa [hs] at h
  next hs => rwa [hs] at h

theorem scanAnswer_follows [IsPreorder σ R] (answer : String) (db : σ) :
    R db (scanAnswer m answer db).2 := by
  rw [scanAnswer]
  split
  · cases m.defaultRoot with
    | none => exact refl_of R db
    | some root => exact scan_follows m hscan root db
  · exact scan_follows m hscan (Path.expand m.home answer) db

end Scan

section Entry

variable (hadd : ∀ folder controller entries,
  Follows R (Manual.add folder controller entries : StoreM σ Manual.Account))
include hadd

theorem enter_follows (folder controller : String) (entries : List Manual.Entry) (db : σ) :
    R db (enter m folder controller entries db).2 := by
  have h := hadd folder controller entries db
  rw [finalState] at h
  rw [enter]
  cases hr : (Manual.add folder controller entries).run db with
  | ok account after => rwa [hr] at h
  | error e after => rwa [hr] at h

theorem finish_follows [IsPreorder σ R] (db : σ) (p : Prompt) : R db (finish m db p).2 := by
  cases p with
  | url folder controller entries => exact enter_follows m hadd folder controller entries db
  | redirect folder controller entries url => exact enter_follows m hadd folder controller _ db
  | _ => exact refl_of R db

end Entry

section Lines

variable [IsPreorder σ R]
  (hscan : ∀ root db, R db (Scan.scanRecorded m.tree m.now m.later m.options root db).2)
  (hadd : ∀ folder controller entries,
    Follows R (Manual.add folder controller entries : StoreM σ Manual.Account))
include hscan hadd

theorem answer_follows (db : σ) (p : Prompt) (line : String) : R db (answer m db p line).db := by
  have hrefl := refl_of R db
  cases p with
  | choice =>
    simp only [answer]
    split <;> exact hrefl
  | root =>
    simp only [answer, Turn.back]
    exact scanAnswer_follows m hscan (Text.trim line) db
  | folder => exact hrefl
  | controller folder => exact hrefl
  | url folder controller entries =>
    simp only [answer, Turn.back]
    split
    · exact enter_follows m hadd folder controller entries db
    · exact hrefl
  | redirect folder controller entries url => exact hrefl

/-- A conversation follows what scans and entries by hand follow. -/
theorem converse_follows (broken : Bool) (db : σ) (p : Prompt) (lines : List String) :
    R db (converse m broken db p lines).db := by
  induction lines generalizing db p with
  | nil =>
    rw [converse]
    split
    · exact refl_of R db
    · exact finish_follows m hadd db p
  | cons line lines ih =>
    have hanswer := answer_follows m hscan hadd db p line
    rw [converse]
    cases hnext : (answer m db p line).next with
    | none => exact hanswer
    | some next => exact trans_of R hanswer (ih _ next)

end Lines

end Menu

/-! ### An open database -/

section Connection

variable (hlawful : sqlite.Lawful stored?)
include hlawful

theorem Manual.add_advances (folder controller : String) (entries : List Manual.Entry) :
    Follows (Advances stored? Within)
      (Manual.add folder controller entries : StoreM (Connection sqlite) Manual.Account) :=
  fun c => (add_follows_of_creates (Connection.creates_advances hlawful) folder controller
    entries c).mono Database.within_of_extends

theorem Menu.run_advances (m : Setting) (c : Connection sqlite) (input : Text.Input) :
    Advances stored? Within c (Menu.run m c input).db :=
  converse_follows m (fun root c => Scan.scanRecorded_advances hlawful _ _ _ _ root c)
    (Manual.add_advances hlawful) input.broken c .choice input.lines

end Connection

end EndpointCatalog
