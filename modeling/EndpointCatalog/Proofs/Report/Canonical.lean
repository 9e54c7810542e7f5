import EndpointCatalog.Proofs.Scan.FirstWriter
import EndpointCatalog.Proofs.Store.Agreement
import EndpointCatalog.Proofs.Store.Invariant
import EndpointCatalog.Proofs.Text.ByteOrder
import EndpointCatalog.Report.Basic
import Mathlib.Data.List.Nodup
import Mathlib.Data.Prod.Lex

/-! The report as a function of the rows. Names order the pages of sound rows strictly, and
each endpoint is of exactly one page; so a report lists every page once with its own
endpoints, counts all rows, and is the same for both stores, in whatever order they list
their pages. -/

namespace EndpointCatalog

open StoreView

/-! ### The order of pages -/

namespace PageIdentity

/-- Folders come first, and controllers decide between pages of one folder. -/
def le (a b : PageIdentity) : Bool :=
  a.folder < b.folder || (a.folder = b.folder && a.controller ≤ b.controller)

/-- The same order by the bytes of the names, without equality. -/
def BytesLt (a b : PageIdentity) : Prop :=
  Text.BytesLt a.folder b.folder ∨
    a.folder = b.folder ∧ Text.BytesLt a.controller b.controller

/-- The two names as a pair in dictionary order. -/
def names (a : PageIdentity) : String ×ₗ String := toLex (a.folder, a.controller)

theorem names_injective : names.Injective := by
  rintro ⟨f, c⟩ ⟨f', c'⟩ h
  simpa [names] using h

theorem le_iff {a b : PageIdentity} : a.le b = true ↔ a.names ≤ b.names := by
  simp [le, names, Prod.Lex.toLex_le_toLex]

theorem bytesLt_iff {a b : PageIdentity} : a.BytesLt b ↔ a.names < b.names := by
  rw [BytesLt, Text.bytesLt_iff, Text.bytesLt_iff, names, names, Prod.Lex.toLex_lt_toLex]

theorem le_trans (a b c : PageIdentity) (hab : a.le b = true) (hbc : b.le c = true) :
    a.le c = true := by
  rw [le_iff] at hab hbc ⊢
  exact hab.trans hbc

theorem le_total (a b : PageIdentity) : (a.le b || b.le a) = true := by
  rw [Bool.or_eq_true, le_iff, le_iff]
  exact LinearOrder.le_total a.names b.names

theorem bytesLt_of_le {a b : PageIdentity} (h : a.le b = true) (hne : a ≠ b) : a.BytesLt b := by
  rw [le_iff] at h
  exact bytesLt_iff.2 (h.lt_of_ne (names_injective.ne hne))

end PageIdentity

/-! ### Endpoints by page -/

namespace Rows

/-- What a report has to say of a page. -/
def pageEntry (r : Rows) (p : Page) : Report.PageEntry :=
  ⟨p.folder, p.controller, (r.pageEndpoints p.id).map fun e => ⟨e.url, e.redirect⟩⟩

namespace Sound

variable {r : Rows}

theorem nodup_endpoints (h : r.Sound) : r.endpoints.Nodup :=
  List.Nodup.of_map _ (h.endpoint_ids ▸ nodup_numbers r.endpoints.length)

theorem pairwise_pages (h : r.Sound) : r.pages.Pairwise fun p q => p.id ≠ q.id := by
  rw [← List.pairwise_map (R := (· ≠ ·)), h.page_ids]
  exact nodup_numbers r.pages.length

/-- Every endpoint is of one page and of no other. -/
theorem flatMap_pageEndpoints_perm (h : r.Sound) :
    (r.pages.flatMap fun p => r.pageEndpoints p.id).Perm r.endpoints := by
  have hnodup : (r.pages.flatMap fun p => r.pageEndpoints p.id).Nodup := by
    refine List.nodup_flatMap.2 ⟨fun p _ => h.nodup_endpoints.filter _, ?_⟩
    refine h.pairwise_pages.imp fun {p q} hne e hp hq => hne ?_
    simp only [pageEndpoints, List.mem_filter, decide_eq_true_eq] at hp hq
    rw [← hp.2, hq.2]
  refine (List.perm_ext_iff_of_nodup hnodup h.nodup_endpoints).2 fun e => ?_
  simp only [pageEndpoints, List.mem_flatMap, List.mem_filter, decide_eq_true_eq]
  constructor
  · rintro ⟨_, _, he, _⟩
    exact he
  · intro he
    obtain ⟨p, hp, hid⟩ := hasPage_iff.1 (h.owned e he)
    exact ⟨p, hp, he, hid.symm⟩

end Sound

end Rows

/-! ### The report on rows -/

namespace Report

def PageEntry.identity (p : PageEntry) : PageIdentity := ⟨p.folder, p.controller⟩

/-- The pages of the rows with their endpoints, each once and in order, and how many of both
there are. -/
structure Canonical (report : Report) (r : Rows) : Prop where
  ascending : report.pages.Pairwise fun p q => p.identity.BytesLt q.identity
  pages_perm : report.pages.Perm (r.pages.map r.pageEntry)
  totalPages_eq : report.totalPages = r.pages.length
  totalEndpoints_eq : report.totalEndpoints = r.endpoints.length

section

variable {σ : Type} [ListingStore σ] {s : σ}

theorem pageEntry_eq (h : (rows s).Sound) (p : Page) : pageEntry s p = (rows s).pageEntry p := by
  rw [pageEntry, ListingStore.pageEndpoints_eq h]
  rfl

theorem pages_perm (now : Int) (h : (rows s).Sound) :
    (ofStore now s).pages.Perm ((rows s).pages.map (rows s).pageEntry) := by
  have hpages := (ListingStore.pages_perm s).map (pageEntry s)
  rw [funext (pageEntry_eq h)] at hpages
  refine (List.mergeSort_perm _ _).trans ?_
  rw [funext (pageEntry_eq h)]
  exact hpages

theorem sorted_pages (now : Int) (s : σ) :
    (ofStore now s).pages.Pairwise fun p q => p.identity.le q.identity = true := by
  have hpages : (ofStore now s).pages = ((Store.pages s).map (pageEntry s)).mergeSort
      fun p q => p.identity.le q.identity := rfl
  rw [hpages]
  refine List.pairwise_mergeSort (fun p q r => ?_) (fun p q => ?_) _
  · exact PageIdentity.le_trans p.identity q.identity r.identity
  · exact PageIdentity.le_total p.identity q.identity

theorem nodup_identities (now : Int) (h : (rows s).Sound) :
    ((ofStore now s).pages.map (·.identity)).Nodup := by
  rw [((pages_perm now h).map _).nodup_iff, List.map_map]
  exact h.identities

theorem ofStore_canonical (now : Int) (h : (rows s).Sound) :
    (ofStore now s).Canonical (rows s) where
  ascending := by
    have hdistinct := List.pairwise_map.1 (nodup_identities now h)
    exact ((sorted_pages now s).and hdistinct).imp fun hpq => PageIdentity.bytesLt_of_le hpq.1 hpq.2
  pages_perm := pages_perm now h
  totalPages_eq := by
    rw [ofStore, List.length_mergeSort, List.length_map, (ListingStore.pages_perm s).length_eq]
  totalEndpoints_eq := by
    have hall := (pages_perm now h).flatMap_right (·.endpoints)
    change ((ofStore now s).pages.flatMap (·.endpoints)).length = _
    rw [hall.length_eq, ← h.flatMap_pageEndpoints_perm.length_eq]
    simp [List.length_flatMap, Rows.pageEntry, Function.comp_def]

end

/-- Rows have only one canonical report at a time. -/
theorem Canonical.unique {r : Rows} {a b : Report} (ha : a.Canonical r) (hb : b.Canonical r)
    (hnow : a.generatedAt = b.generatedAt) : a = b := by
  have hpages : a.pages = b.pages := by
    refine List.Perm.eq_of_pairwise (fun p q _ _ hpq hqp => ?_) ha.ascending hb.ascending
      (ha.pages_perm.trans hb.pages_perm.symm)
    rw [PageIdentity.bytesLt_iff] at hpq hqp
    exact absurd hqp hpq.asymm
  have hcounted := ha.totalPages_eq.trans hb.totalPages_eq.symm
  have hendpoints := ha.totalEndpoints_eq.trans hb.totalEndpoints_eq.symm
  cases a
  cases b
  simp_all

end Report

/-! ### Both stores -/

theorem Operation.afterAll_alike {σ τ : Type} [ListingStore σ] [ListingStore τ]
    (os : List Operation) {s : σ} {t : τ} (h : Alike s t) :
    Alike (afterAll os s) (afterAll os t) := by
  induction os generalizing s t with
  | nil => exact h
  | cons o os ih => exact ih (o.answer?_alike h).2

/-- Whatever operations are performed on an empty store, the report on it is the canonical one
of its rows and the same for both stores. They need not list their pages in one order. -/
theorem reports_canonical :
    (∀ (now : Int) (os : List Operation),
      let s := Operation.afterAll os MemoryStore.empty
      let db := Operation.afterAll os Database.empty
      (Report.ofStore now s).Canonical (rows s) ∧ (Report.ofStore now db).Canonical (rows db) ∧
        Report.ofStore now s = Report.ofStore now db) ∧
    ∃ os, Store.pages (Operation.afterAll os MemoryStore.empty) ≠
      Store.pages (Operation.afterAll os Database.empty) := by
  constructor
  · intro now os s db
    have halike : Alike s db := Operation.afterAll_alike os alike_empty
    have hs := Report.ofStore_canonical now halike.sound
    have hdb := Report.ofStore_canonical now (halike.rows_eq ▸ halike.sound)
    exact ⟨hs, hdb, hs.unique (halike.rows_eq ▸ hdb) rfl⟩
  · refine ⟨[.createPage ⟨"w", "a"⟩, .createPage ⟨"v", "a"⟩], ?_⟩
    have hcreated : Store.pages (Operation.afterAll
        [.createPage ⟨"w", "a"⟩, .createPage ⟨"v", "a"⟩] MemoryStore.empty) =
          [⟨1, "w", "a"⟩, ⟨2, "v", "a"⟩] := rfl
    have hsorted : Store.pages (Operation.afterAll
        [.createPage ⟨"w", "a"⟩, .createPage ⟨"v", "a"⟩] Database.empty) =
          [⟨2, "v", "a"⟩, ⟨1, "w", "a"⟩] := by
      have hlater : Database.pageLe ⟨1, "w", "a"⟩ ⟨2, "v", "a"⟩ = false := by decide
      change [⟨1, "w", "a"⟩, ⟨2, "v", "a"⟩].mergeSort Database.pageLe = _
      simp [List.mergeSort, List.MergeSort.Internal.splitInTwo, hlater]
    rw [hcreated, hsorted]
    decide

end EndpointCatalog
