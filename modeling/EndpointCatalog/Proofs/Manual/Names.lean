import EndpointCatalog.Proofs.Manual.Entries
import EndpointCatalog.Proofs.Scan.Clean
import EndpointCatalog.Proofs.Scan.FirstWriter
import EndpointCatalog.Proofs.Scan.Halt

/-! Entries by hand under the names of a page. A scan takes the names of a page from the path of
a file as they are, and an entry by hand without the white space at their ends; so the
entries come to the page itself exactly if its names have none. -/

namespace EndpointCatalog

open StoreView Scan

variable {σ : Type} [LawfulStore σ]

/-- Rows that fit are inserted, or the store refuses one of them. -/
theorem insertRows_run_cases {s : σ} {is : List Insertion} (fits : (rows s).FitAll is) :
    (∃ t, (insertRows is).run s = .ok () t ∧ InsertsAll s is t) ∨
      ∃ e t before i after, (insertRows is).run s = .error e t ∧ is = before ++ i :: after ∧
        InsertsAll s before t ∧ refuses (setting s) i = true := by
  cases hrun : (insertRows is).run s with
  | ok _ t => exact .inl ⟨t, rfl, insertRows_run_ok.1 hrun⟩
  | error e t =>
    obtain ⟨before, i, after, rfl, hbefore, hi⟩ := insertRows_run_error hrun
    refine .inr ⟨e, t, before, i, after, rfl, rfl, hbefore, ?_⟩
    rcases insertRow_attempts t i with ⟨u, hu, _⟩ | ⟨_, _, hnot⟩
    · rw [hu] at hi
      cases hi
    · have hfits : (rows t).Fits i := hbefore.rows_eq ▸ (Rows.fitAll_append.1 fits).2.1
      rw [← hbefore.setting_eq]
      by_contra hrefuses
      exact hnot ⟨hfits, by simpa using hrefuses⟩

theorem Catalogued.sound {s : σ} (h : Catalogued s) : (rows s).Sound := by
  induction h with
  | empty h => exact h ▸ Rows.Sound.empty
  | activity a _ ih => exact (a.extends_after _).sound ih
  | setting h _ ih => exact h ▸ ih

namespace Manual

/-- Entries under the names of a page are entered on this page, and no page is created. The
store may refuse an endpoint that is new, and then the page is still the only one
concerned. -/
def Attaches (s : σ) (p : Page) : Prop :=
  ∀ entries : List Entry,
    (∃ account t, (add p.folder p.controller entries).run s = .ok account t ∧ account.page = p ∧
      account.pageCreated = false ∧ (rows t).pages = (rows s).pages) ∨
    ∃ e t, (add p.folder p.controller entries).run s = .error e t ∧
      (rows t).pages = (rows s).pages ∧
      ∃ x ∈ newRoutes (rows s) p (wanted entries), refuses (setting s) (.endpoint x) = true

theorem newRoutes_fitAll {r : Rows} {page : Page} (h : r.hasPage page.id = true)
    (entries : List Entry) :
    r.FitAll ((newRoutes r page (wanted entries)).map .endpoint) := by
  rw [← newsOf_entries]
  exact planRoutes_fitAll h _

theorem attaches_of_found {s : σ} {p : Page}
    (found : (rows s).page? ⟨Text.trim p.folder, Text.trim p.controller⟩ = some p) :
    Attaches s p := by
  intro entries
  have hrun := add_run_of_found entries found
  rcases insertRows_run_cases (newRoutes_fitAll (Rows.hasPage_of_page? found) entries) with
    ⟨t, ht, hi⟩ | ⟨e, t, before, i, after, ht, his, hbefore, hrefused⟩
  · rw [EStateM.run_bind, ht] at hrun
    refine .inl ⟨_, t, hrun, rfl, rfl, ?_⟩
    rw [hi.rows_eq, Rows.pages_insertAll_endpoints]
  · rw [EStateM.run_bind, ht] at hrun
    obtain ⟨front, back, hnews, rfl, hback⟩ := List.map_eq_append_iff.1 his
    obtain ⟨x, _, rfl, rfl, -⟩ := List.map_eq_cons_iff.1 hback
    refine .inr ⟨e, t, hrun, ?_, x, by simp [hnews], hrefused⟩
    rw [hbefore.rows_eq, Rows.pages_insertAll_endpoints]

/-- Of the pages that scans and entries by hand lead to, those attach entries under their names
that have no white space at the ends of their names. -/
theorem attaches_iff {s : σ} (hs : Catalogued s) {p : Page} (hp : p ∈ (rows s).pages) :
    Attaches s p ↔ Text.trim p.folder = p.folder ∧ Text.trim p.controller = p.controller := by
  constructor
  · intro h
    rcases h [] with ⟨account, t, hrun, hpage, -, -⟩ | ⟨_, _, _, _, x, hx, _⟩
    · have hfound := (entered_of_run hrun).found
      rw [LawfulStore.findPage_eq, hpage] at hfound
      obtain ⟨hfolder, hcontroller⟩ := Page.identity_eq_iff.1 (Rows.page?_eq_some hfound).2
      exact ⟨hfolder.symm, hcontroller.symm⟩
    · cases hx
  · rintro ⟨hfolder, hcontroller⟩
    refine attaches_of_found ?_
    rw [hfolder, hcontroller]
    exact hs.sound.page?_identity hp

/-! ### A folder whose name begins with a space -/

def spacedFolder : FileTree where
  entries := [(["work"], .folder), (["work", " v"], .folder),
    (["work", " v", "acontroller.js"], .file (Text.Utf8.encode "'/api/x'".toList))]
  workDir := ["work"]

/-- What a scan of the working directory and an entry by hand leave. -/
def spacedStore : MemoryStore :=
  (Activity.entry " w x" "b" []).after
    ((Activity.scan spacedFolder .standard (.below ⟨"."⟩)).after MemoryStore.empty)

theorem spacedStore_eq : spacedStore =
    ⟨[⟨1, " v", "acontroller"⟩, ⟨2, "w x", "b"⟩], [⟨1, 1, "/api/x", ""⟩]⟩ := by
  cbv

theorem spacedStore_catalogued : Catalogued spacedStore := .activity _ (.activity _ (.empty rfl))

/-- A space within a name does no harm. -/
theorem spacedStore_attaches : Catalogued spacedStore ∧
    (⟨2, "w x", "b"⟩ : Page) ∈ (rows spacedStore).pages ∧ Attaches spacedStore ⟨2, "w x", "b"⟩ := by
  have hmem : (⟨2, "w x", "b"⟩ : Page) ∈ (rows spacedStore).pages := by
    rw [spacedStore_eq]
    exact List.mem_cons_of_mem _ List.mem_cons_self
  have htrimmed : Text.trim "w x" = "w x" ∧ Text.trim "b" = "b" := by
    constructor <;> cbv
  exact ⟨spacedStore_catalogued, hmem, (attaches_iff spacedStore_catalogued hmem).2 htrimmed⟩

/-- Entries under the names of the first page are entered on a third one. -/
theorem spacedStore_page_again : Catalogued spacedStore ∧
    (⟨1, " v", "acontroller"⟩ : Page) ∈ (rows spacedStore).pages ∧
    (add " v" "acontroller" [⟨"/api/z", ""⟩]).run spacedStore =
      .ok ⟨⟨3, "v", "acontroller"⟩, true, 1, 0⟩
        ⟨[⟨1, " v", "acontroller"⟩, ⟨2, "w x", "b"⟩, ⟨3, "v", "acontroller"⟩],
          [⟨1, 1, "/api/x", ""⟩, ⟨2, 3, "/api/z", ""⟩]⟩ := by
  have hrun : (add " v" "acontroller" [⟨"/api/z", ""⟩]).run
      (⟨[⟨1, " v", "acontroller"⟩, ⟨2, "w x", "b"⟩], [⟨1, 1, "/api/x", ""⟩]⟩ : MemoryStore) =
      .ok ⟨⟨3, "v", "acontroller"⟩, true, 1, 0⟩
        ⟨[⟨1, " v", "acontroller"⟩, ⟨2, "w x", "b"⟩, ⟨3, "v", "acontroller"⟩],
          [⟨1, 1, "/api/x", ""⟩, ⟨2, 3, "/api/z", ""⟩]⟩ := by
    decide +kernel
  refine ⟨spacedStore_catalogued, ?_, ?_⟩
  · rw [spacedStore_eq]
    exact List.mem_cons_self
  · rw [spacedStore_eq]
    exact hrun

end Manual

end EndpointCatalog
