import EndpointCatalog.Proofs.Store.Sqlite
import EndpointCatalog.Store.Plain

/-! The plain stand-in for SQLite can be relied on as SQLite is: what it stores is what the
database file holds, and it touches no other file. -/

namespace EndpointCatalog.Sqlite

open FileTree (Stays Touches stays_put touches_put)

variable {t t' : FileTree} {p : Path} {loc : Location} {db : Database}

/-- The tables in a database file. -/
def tablesAt? (t : FileTree) (loc : Location) : Option Database :=
  match t.entry? loc with
  | some (.file bytes) => ofBytes? bytes
  | _ => none

theorem tablesAt?_eq_some : tablesAt? t loc = some db ↔
    ∃ bytes, t.entry? loc = some (.file bytes) ∧ ofBytes? bytes = some db := by
  rw [tablesAt?]
  constructor
  · intro h
    split at h
    next bytes hbytes => exact ⟨bytes, hbytes, h⟩
    next => cases h
  · rintro ⟨bytes, hbytes, hdb⟩
    rw [hbytes]
    exact hdb

theorem tablesAt?_put (h : loc ≠ []) (db : Database) :
    tablesAt? (t.put loc (.file (toBytes db))) loc = some db :=
  tablesAt?_eq_some.2 ⟨_, by rw [FileTree.entry?_put h, if_pos rfl], ofBytes?_toBytes db⟩

/-! ### Opening -/

/-- A place where a database can be begun. -/
def Blank (t : FileTree) (loc : Location) : Prop :=
  t.entry? loc = none ∨ ∃ bytes, t.entry? loc = some (.file bytes) ∧ bytes.length ≤ 1

theorem Blank.free (h : Blank t loc) :
    t.entry? loc = none ∨ ∃ old, t.entry? loc = some (.file old) :=
  h.imp_right fun ⟨bytes, hbytes, _⟩ => ⟨bytes, hbytes⟩

theorem Blank.tablesAt? (h : Blank t loc) : tablesAt? t loc = none := by
  rw [Option.eq_none_iff_forall_ne_some]
  intro db hdb
  obtain ⟨bytes, hbytes, hof⟩ := tablesAt?_eq_some.1 hdb
  rcases h with hnone | ⟨bytes', hbytes', hshort⟩
  · cases hnone.symm.trans hbytes
  · cases hbytes.symm.trans hbytes'
    rw [ofBytes?] at hof
    split at hof
    next hmark =>
      have hlength := (List.isPrefixOf_iff_prefix.1 hmark).length_le
      have hsize : 1 < mark.length := by decide
      omega
    next => cases hof

/-- How opening a database ends. -/
inductive Opened (t : FileTree) (loc : Location) :
    EStateM.Result DatabaseFailure FileTree Database → Prop
  | refused {e : DatabaseFailure} : Opened t loc (.error e t)
  | read {db : Database} (h : tablesAt? t loc = some db) : Opened t loc (.ok db t)
  | begun (h : Blank t loc) : Opened t loc (.ok .empty (t.put loc (.file (toBytes .empty))))
  | failed {e : DatabaseFailure} (h : Blank t loc) : Opened t loc (.error e (t.put loc (.file [])))

theorem opened_begin (h : Blank t loc) : Opened t loc ((begin loc).run t) := by
  simp only [begin, EStateM.run_bind, EStateM.run_get]
  split
  · exact .failed h
  · exact .begun h

theorem opened_openAt (p : Path) (t : FileTree) (loc : Location) :
    Opened t loc ((openAt p loc).run t) := by
  simp only [openAt, EStateM.run_bind, EStateM.run_get]
  cases he : t.entry? loc with
  | none => exact opened_begin (.inl he)
  | some e =>
    cases e with
    | folder => exact .refused
    | link target => exact .refused
    | file bytes =>
      dsimp only
      split
      next hshort => exact opened_begin (.inr ⟨bytes, he, hshort⟩)
      next =>
        cases hdb : ofBytes? bytes with
        | none => exact .refused
        | some db =>
          dsimp only
          split
          · exact .refused
          · exact .read (tablesAt?_eq_some.2 ⟨bytes, he, hdb⟩)

theorem Opened.touches {x : EStateM DatabaseFailure FileTree Database}
    (h : Opened t loc (x.run t)) : Touches (files loc) t (finalState x t) := by
  rw [finalState]
  generalize x.run t = result at h
  cases h with
  | refused => exact refl_of (Touches (files loc)) t
  | read => exact refl_of (Touches (files loc)) t
  | begun h => exact touches_put List.mem_cons_self h.free
  | failed h => exact touches_put List.mem_cons_self h.free

theorem Opened.stays {x : EStateM DatabaseFailure FileTree Database} (h : Opened t loc (x.run t)) :
    Stays t (finalState x t) := by
  rw [finalState]
  generalize x.run t = result at h
  cases h with
  | refused => exact refl_of Stays t
  | read => exact refl_of Stays t
  | begun h => exact stays_put h.free
  | failed h => exact stays_put h.free

theorem Opened.keeps {x : EStateM DatabaseFailure FileTree Database}
    (h : Opened t loc (x.run t)) (hdb : tablesAt? t loc = some db) :
    tablesAt? (finalState x t) loc = some db := by
  rw [finalState]
  generalize x.run t = result at h
  cases h with
  | refused => exact hdb
  | read => exact hdb
  | begun h => cases h.tablesAt?.symm.trans hdb
  | failed h => cases h.tablesAt?.symm.trans hdb

theorem Opened.stored (h : Opened t loc (.ok db t')) : tablesAt? t' loc = some db := by
  cases h with
  | read h => exact h
  | begun h => exact tablesAt?_put (FileTree.ne_nil_of_free h.free) .empty

theorem Opened.new {x : EStateM DatabaseFailure FileTree Database} (h : Opened t loc (x.run t))
    (hnone : t.entry? loc = none) (hdb : tablesAt? (finalState x t) loc = some db) :
    db = .empty := by
  have hold : tablesAt? t loc = none := Blank.tablesAt? (.inl hnone)
  rw [finalState] at hdb
  generalize x.run t = result at h hdb
  cases h with
  | refused => cases hold.symm.trans hdb
  | read => cases hold.symm.trans hdb
  | begun h =>
    have hempty := tablesAt?_put (t := t) (FileTree.ne_nil_of_free h.free) .empty
    exact (Option.some.inj (hempty.symm.trans hdb)).symm
  | failed h =>
    have hblank : Blank (t.put loc (.file [])) loc :=
      .inr ⟨[], by rw [FileTree.entry?_put (FileTree.ne_nil_of_free h.free), if_pos rfl], by simp⟩
    cases hblank.tablesAt?.symm.trans hdb

/-! ### Saving -/

theorem saveAt_run (loc : Location) (db : Database) (t : FileTree) :
    (saveAt loc db).run t = .ok () (t.put loc (.file (toBytes db))) ∧
        (∃ old, t.entry? loc = some (.file old)) ∨
      ∃ e, (saveAt loc db).run t = .error e t := by
  simp only [saveAt, EStateM.run_bind, EStateM.run_get]
  cases he : t.entry? loc with
  | none => exact .inr ⟨_, rfl⟩
  | some e =>
    cases e with
    | file old => exact .inl ⟨rfl, old, rfl⟩
    | folder => exact .inr ⟨_, rfl⟩
    | link target => exact .inr ⟨_, rfl⟩

theorem saveAt_cases (loc : Location) (db : Database) (t : FileTree) :
    t.put loc (.file (toBytes db)) = finalState (saveAt loc db) t ∧
        (∃ old, t.entry? loc = some (.file old)) ∨ finalState (saveAt loc db) t = t := by
  rw [finalState]
  rcases saveAt_run loc db t with ⟨hok, hold⟩ | ⟨e, herror⟩
  · exact .inl ⟨by rw [hok], hold⟩
  · exact .inr (by rw [herror])

/-! ### Places -/

theorem placeOf_eq_ok {place : Location} (hp : isUri p = false) (h : placeOf t p = .ok place) :
    (∃ e, t.lookup .writing p = .ok (.found place e)) ∨ ∃ folder name,
      t.lookup .writing p = .ok (.missing folder name) ∧ place = folder ++ [name] := by
  simp only [placeOf, hp, Bool.false_eq_true, if_false, Option.map_some] at h
  split at h
  next loc e hl =>
    split at h
    · cases h
    · cases h
      exact .inl ⟨e, Option.some.inj hl⟩
  next folder name hl =>
    split at h
    · cases h
    · cases h
      exact .inr ⟨folder, name, Option.some.inj hl, rfl⟩
  next => cases h

theorem placeOf_of_found {e : Entry} (hp : isUri p = false)
    (hsize : pathSize loc + "-journal".utf8ByteSize ≤ maxPathSize)
    (h : t.lookup .writing p = .ok (.found loc e)) : placeOf t p = .ok loc := by
  simp only [placeOf, hp, h, not_lt.2 hsize, Bool.false_eq_true, if_false, Option.map_some]

theorem plain_lawful : plain.Lawful tablesAt? where
  place_found hp h hplace := by
    have htarget := FileTree.resolve_eq_ok.1 h
    obtain ⟨hsought, hwalk⟩ := FileTree.lookup_eq_ok.1 htarget
    rcases placeOf_eq_ok hp hplace with ⟨e, hl⟩ | ⟨folder, name, hl, -⟩
    · cases hwalk.symm.trans (FileTree.walk_writing (FileTree.lookup_eq_ok.1 hl).2)
      rfl
    · cases hwalk.symm.trans (FileTree.walk_writing (FileTree.lookup_eq_ok.1 hl).2)
  place_missing hp h hplace := by
    rcases placeOf_eq_ok hp hplace with ⟨e, hl⟩ | ⟨folder, name, hl, rfl⟩
    · cases h.symm.trans hl
    · cases h.symm.trans hl
      rfl
  stored_file h := (tablesAt?_eq_some.1 h).imp fun _ hbytes => hbytes.1
  stored_congr h := by rw [tablesAt?, tablesAt?, h _ List.mem_cons_self]
  stored_text {_ loc _ _} hplace h := by
    rw [tablesAt?, tablesAt?, FileTree.entry?_put (FileTree.ne_nil_of_entry?_none h), if_neg]
    rintro rfl
    exact not_mem_beside loc hplace
  connect_touches _ := (opened_openAt _ _ _).touches
  connect_ok {t _ p loc _} _ hrun := by
    have h := opened_openAt p t loc
    exact Opened.stored (hrun ▸ h)
  connect_keeps _ hdb := (opened_openAt _ _ _).keeps hdb
  connect_stays _ _ := (opened_openAt _ _ _).stays
  connect_new _ hnone hdb := (opened_openAt _ _ _).new hnone hdb
  commit_touches t loc _ after := by
    rcases saveAt_cases loc after t with ⟨hput, hold⟩ | hsame
    · exact hput ▸ touches_put List.mem_cons_self (.inr hold)
    · exact hsame.symm ▸ refl_of (Touches (files loc)) t
  commit_stays {t loc _} after _ := by
    rcases saveAt_cases loc after t with ⟨hput, hold⟩ | hsame
    · exact hput ▸ stays_put (.inr hold)
    · exact hsame.symm ▸ refl_of Stays t
  commit_ok {t _ loc _ after} _ hrun := by
    rcases saveAt_run loc after t with ⟨hok, hold⟩ | ⟨e, herror⟩
    · cases hok.symm.trans hrun
      exact tablesAt?_put (FileTree.ne_nil_of_free (.inr hold)) after
    · cases herror.symm.trans hrun
  commit_error {t _ loc _ after _} h hrun := by
    rcases saveAt_run loc after t with ⟨hok, -⟩ | ⟨e, herror⟩
    · cases hok.symm.trans hrun
    · cases herror.symm.trans hrun
      exact h
  disconnect_touches t loc := refl_of (Touches (files loc)) t
  disconnect_keeps h := h
  disconnect_stays _ := refl_of Stays _

end EndpointCatalog.Sqlite
