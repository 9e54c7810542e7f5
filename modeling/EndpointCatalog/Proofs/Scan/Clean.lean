import EndpointCatalog.Proofs.Extract.Located
import EndpointCatalog.Proofs.Scan.Nearest
import EndpointCatalog.Proofs.Scan.Recorded
import EndpointCatalog.Proofs.Text.Trim

/-! The endpoints that a catalog comes to hold. Matches in a text, lines of scripts and entries
by hand are each trimmed in a way of their own, and every scan and every entry, also one
that fails, adds none but trimmed urls and redirects, and no blank url. -/

namespace EndpointCatalog

open StoreView

structure CleanUrl (url : String) : Prop where
  ne_empty : url ≠ ""
  trimmed : Text.Trimmed url.toList

structure Clean (url redirect : String) : Prop where
  url : CleanUrl url
  redirect : Text.Trimmed redirect.toList

/-! ### Matches in a text -/

theorem Extract.clean_of_mem_locate {cs : List Candidate} {l : Located} (h : l ∈ locate cs) :
    CleanUrl l.value := by
  have hmem := (mem_locate_iff.1 h).mem
  obtain ⟨c, _, hc⟩ := List.mem_filterMap.1 hmem
  refine ⟨value_ne_of_mem_trimmed hmem, ?_⟩
  dsimp only at hc
  split at hc
  · cases hc
  · cases hc
    rw [String.toList_ofList]
    exact Text.trimmed_trimChars c.value

/-! ### Lines of scripts -/

namespace Directive

theorem clean_of_normalize {letters : LetterCase} {raw route : List Char}
    (h : normalize letters raw = some route) : CleanUrl (String.ofList route) := by
  rw [normalize] at h
  split at h
  next => cases h
  next hroute =>
    cases h
    have hne : bareRoute raw ≠ [] := by
      intro hnil
      simp [hnil] at hroute
    have hbare : Text.Trimmed (bareRoute raw) := Text.trimmed_trimChars _
    cases letters with
    | preserve =>
      refine ⟨?_, ?_⟩
      · simpa [LetterCase.apply] using hne
      · simpa [LetterCase.apply] using hbare
    | lower =>
      refine ⟨?_, ?_⟩
      · simpa [LetterCase.apply, Text.lowerChars] using Text.lowerAfter_ne_nil [] hne
      · simpa [LetterCase.apply] using hbare.lowerChars

theorem clean_of_mem_scriptEndpoints {letters : LetterCase} {script : Text.Utf8.Bytes}
    {url : String} (h : url ∈ scriptEndpoints letters script) : CleanUrl url := by
  obtain ⟨line, _, hline⟩ := List.mem_filterMap.1 h
  obtain ⟨route, hroute, rfl⟩ := Option.map_eq_some_iff.1 hline
  obtain ⟨raw, _, hnormal⟩ := Option.bind_eq_some_iff.1 hroute
  exact clean_of_normalize hnormal

theorem clean_of_mem_resolve {tree : FileTree} {base : Path} {letters : LetterCase}
    {text : List Char} {l : Located} (h : l ∈ (resolve tree base letters text).endpoints) :
    CleanUrl l.value := by
  obtain ⟨found, hfound, hl⟩ := List.mem_flatten.1 (mem_of_mem_distinctBy h)
  obtain ⟨outcome, houtcome, hok⟩ := List.mem_filterMap.1 hfound
  obtain ⟨t, _, rfl⟩ := List.mem_map.1 houtcome
  rw [Target.read] at hok
  cases hread : tree.read t.path with
  | error e =>
    rw [hread] at hok
    cases hok
  | ok script =>
    rw [hread] at hok
    cases hok
    obtain ⟨url, hurl, rfl⟩ := List.mem_map.1 hl
    exact clean_of_mem_scriptEndpoints hurl

end Directive

/-! ### Controllers -/

/-- The redirect that is chosen is one of those there are, or empty. -/
theorem RedirectPolicy.choose_cases (policy : RedirectPolicy) (redirects : List Located)
    (offset : Nat) : policy.choose redirects offset = "" ∨
      ∃ r ∈ redirects, policy.choose redirects offset = r.value := by
  have hhead : (redirects.head?.map (·.value)).getD "" = "" ∨
      ∃ r ∈ redirects, (redirects.head?.map (·.value)).getD "" = r.value := by
    cases redirects with
    | nil => exact .inl rfl
    | cons r rs => exact .inr ⟨r, List.mem_cons_self, rfl⟩
  cases policy with
  | first =>
    have hfirst : first.choose redirects offset = (redirects.head?.map (·.value)).getD "" := by
      cases redirects <;> rfl
    rwa [hfirst]
  | nearest =>
    by_cases h : ∃ d ∈ redirects, d.offset ≤ offset
    · obtain ⟨d, hd, hle⟩ := h
      obtain ⟨r, hr, hvalue⟩ := choose_nearest_of_some hd hle
      exact .inr ⟨r, hr.mem, hvalue⟩
    · rwa [choose_nearest_of_none fun d hd => by_contra fun hlt => h ⟨d, hd, by omega⟩]

namespace Scan

theorem Controller.clean_routes {tree : FileTree} {options : ScanOptions} {base path : Path}
    {c : Controller} (h : Controller.read tree options base path = .ok c) :
    ∀ x ∈ c.routes, Clean x.url x.redirect := by
  obtain ⟨bytes, _, rfl⟩ := Controller.read_eq_ok h
  intro x hx
  obtain ⟨l, hl, rfl⟩ := List.mem_map.1 hx
  constructor
  · rcases List.mem_append.1 (mem_of_mem_distinctBy hl) with hl | hl
    · exact Extract.clean_of_mem_locate hl
    · exact Directive.clean_of_mem_resolve hl
  · rcases options.policy.choose_cases (Extract.redirects (Text.Utf8.decodeLossy bytes))
      l.offset with
      hnone | ⟨r, hr, hvalue⟩
    · dsimp only
      rw [hnone]
      exact Text.Trimmed.nil
    · dsimp only
      rw [hvalue]
      exact (Extract.clean_of_mem_locate hr).trimmed

/-! ### Scans -/

/-- A row for the page of a controller, or for one of its routes. -/
def Controller.Yields (c : Controller) : Insertion → Prop
  | .page id => id = c.identity
  | .endpoint e => ⟨e.url, e.redirect⟩ ∈ c.routes

theorem mem_routes_of_mem_planRoutes {page : Page} {r : Rows} {xs : List Route} {f : Found}
    (h : f ∈ planRoutes page r xs) : ⟨f.url, f.redirect⟩ ∈ xs := by
  induction xs generalizing r with
  | nil => cases h
  | cons x xs ih =>
    rw [planRoutes] at h
    split at h
    all_goals
      rcases List.mem_cons.1 h with rfl | h
      · exact List.mem_cons_self
      · exact List.mem_cons_of_mem x (ih h)

theorem yields_of_mem_planController {r : Rows} {path : Path} {c : Controller} {i : Insertion}
    (h : i ∈ (planController r path c).insertions) : c.Yields i := by
  have hnews {page : Page} {r : Rows} {e : NewEndpoint}
      (he : e ∈ newsOf page (planRoutes page r c.routes)) : c.Yields (.endpoint e) := by
    obtain ⟨f, hf, rfl⟩ := List.mem_map.1 he
    exact mem_routes_of_mem_planRoutes (List.mem_filter.1 hf).1
  cases hp : r.page? c.identity with
  | some page =>
    rw [insertions_of_page hp] at h
    obtain ⟨e, he, rfl⟩ := List.mem_map.1 h
    exact hnews he
  | none =>
    rw [insertions_of_no_page hp] at h
    rcases List.mem_cons.1 h with rfl | h
    · exact rfl
    · obtain ⟨e, he, rfl⟩ := List.mem_map.1 h
      exact hnews he

theorem yields_of_mem_plan {r : Rows} {cs : List (Path × Controller)} {i : Insertion}
    (h : i ∈ (plan r cs).flatMap (·.insertions)) : ∃ c ∈ cs, c.2.Yields i := by
  induction cs generalizing r with
  | nil => cases h
  | cons c cs ih =>
    obtain ⟨path, c⟩ := c
    rw [plan, List.flatMap_cons] at h
    rcases List.mem_append.1 h with h | h
    · exact ⟨_, List.mem_cons_self, yields_of_mem_planController h⟩
    · obtain ⟨d, hd, hyields⟩ := ih h
      exact ⟨d, List.mem_cons_of_mem _ hd, hyields⟩

variable {σ : Type} [LawfulStore σ]

theorem mem_insertions_of_mem_atOnce {persistence : Persistence} {p : PageScan} {i : Insertion}
    (h : i ∈ atOnce persistence p) : i ∈ p.insertions := by
  cases persistence with
  | incremental => exact h
  | batched => exact List.mem_append_left _ h

/-- Wherever a scan halts, it has inserted rows of its plan only. -/
theorem Halts.inserts {persistence : Persistence} {ps : List PageScan}
    {obstacle : Option (Path × IoError)} {s : σ} {o : Outcome σ}
    (h : Halts persistence ps obstacle s o) :
    ∃ is, InsertsAll s is o.store ∧ ∀ i ∈ is, i ∈ ps.flatMap (·.insertions) := by
  have hplanned (qs : List PageScan) (hqs : ∀ q ∈ qs, q ∈ ps) :
      ∀ i ∈ qs.flatMap (atOnce persistence), i ∈ ps.flatMap (·.insertions) := by
    intro i hi
    obtain ⟨q, hq, hi⟩ := List.mem_flatMap.1 hi
    exact List.mem_flatMap.2 ⟨q, hqs q hq, mem_insertions_of_mem_atOnce hi⟩
  cases h with
  | @row done rest p before after i e t hps his hb _ =>
    refine ⟨_, hb, fun j hj => ?_⟩
    rcases List.mem_append.1 hj with hj | hj
    · exact hplanned done (fun q hq => hps ▸ List.mem_append_left _ hq) j hj
    · have hp : p ∈ ps := by simp [hps]
      have hat : j ∈ atOnce persistence p := his ▸ List.mem_append_left _ hj
      exact List.mem_flatMap.2 ⟨p, hp, mem_insertions_of_mem_atOnce hat⟩
  | file _ hi => exact ⟨_, hi, hplanned ps fun _ hq => hq⟩
  | batch _ hi _ => exact ⟨_, hi, hplanned ps fun _ hq => hq⟩

/-- A scan, also one that fails, inserts only what controllers yield that can be read. -/
theorem Request.run_inserts (tree : FileTree) (options : ScanOptions) (q : Request) (s : σ) :
    ∃ is, InsertsAll s is (q.run tree options s).store ∧ ∀ i ∈ is, ∃ path c,
      Controller.read tree options (q.base options) path = .ok c ∧ c.Yields i := by
  have hread {files : List Path} {r : Rows} {i : Insertion}
      (hi : i ∈ (plan r (legible (Controller.read tree options (q.base options)) files)).flatMap
        (·.insertions)) : ∃ path c,
          Controller.read tree options (q.base options) path = .ok c ∧ c.Yields i := by
    obtain ⟨⟨path, c⟩, hc, hyields⟩ := yields_of_mem_plan hi
    exact ⟨path, c, read_of_mem_legible hc, hyields⟩
  cases hresult : (q.run tree options s).result with
  | ok summary =>
    obtain ⟨files, _, _, rfl, hi⟩ := Request.run_ok_iff.1 ⟨hresult, rfl⟩
    exact ⟨_, hi, fun i h => hread h⟩
  | error e =>
    cases hfiles : q.files tree options.fileSuffix with
    | ok files =>
      obtain ⟨is, hi, hplanned⟩ := (Request.run_halts hfiles hresult).2.inserts
      exact ⟨is, hi, fun i h => hread (hplanned i h)⟩
    | error f =>
      -- The root is missing, so the store is as it was.
      cases q with
      | listed files => cases hfiles
      | below root =>
        rw [files] at hfiles
        rw [run, scanRoot]
        cases hfound : discover tree options.fileSuffix root with
        | ok found =>
          rw [hfound] at hfiles
          cases hfiles
        | error missing => exact ⟨[], InsertsAll.nil s, by simp⟩

end Scan

/-! ### Clean rows -/

def Insertion.Clean : Insertion → Prop
  | .page _ => True
  | .endpoint e => EndpointCatalog.Clean e.url e.redirect

def Rows.Clean (r : Rows) : Prop := ∀ e ∈ r.endpoints, EndpointCatalog.Clean e.url e.redirect

theorem Rows.Clean.insert {r : Rows} (h : r.Clean) {i : Insertion} (hi : i.Clean) :
    (r.insert i).Clean := by
  cases i with
  | page id => exact h
  | endpoint e => exact List.forall_mem_append.2 ⟨h, List.forall_mem_singleton.2 hi⟩

theorem Rows.Clean.insertAll {r : Rows} (h : r.Clean) {is : List Insertion}
    (his : ∀ i ∈ is, i.Clean) : (r.insertAll is).Clean := by
  induction is generalizing r with
  | nil => exact h
  | cons i is ih =>
    obtain ⟨hi, his⟩ := List.forall_mem_cons.1 his
    exact ih (h.insert hi) his

variable {σ : Type} [LawfulStore σ]

/-- The second store has the rows of the first and then more, which are clean. -/
def ExtendsCleanly (s t : σ) : Prop := ∃ is, InsertsAll s is t ∧ ∀ i ∈ is, i.Clean

instance : IsPreorder σ ExtendsCleanly where
  refl s := ⟨[], InsertsAll.nil s, nofun⟩
  trans _ _ _ h h' := by
    obtain ⟨is, hi, hclean⟩ := h
    obtain ⟨js, hj, hclean'⟩ := h'
    exact ⟨is ++ js, hi.append hj, List.forall_mem_append.2 ⟨hclean, hclean'⟩⟩

theorem StoreView.Attempts.extendsCleanly {α : Type} {change : StoreM σ α} {s : σ} {i : Insertion}
    {a : α} (h : Attempts change s i a) (hi : i.Clean) :
    ExtendsCleanly s (finalState change s) := by
  obtain ⟨is, hins, his⟩ := h.inserts
  exact ⟨is, hins, fun j hj => his j hj ▸ hi⟩

theorem Scan.Request.run_extendsCleanly (tree : FileTree) (options : ScanOptions)
    (q : Request) (s : σ) : ExtendsCleanly s (q.run tree options s).store := by
  obtain ⟨is, hi, hyields⟩ := q.run_inserts tree options s
  refine ⟨is, hi, fun i h => ?_⟩
  obtain ⟨path, c, hread, hyield⟩ := hyields i h
  cases i with
  | page id => trivial
  | endpoint e => exact Controller.clean_routes hread _ hyield

/-! ### Entries by hand -/

namespace Manual

theorem addEntry_cleanly (pageId : Int) (e : Entry) :
    Follows ExtendsCleanly (addEntry pageId e : StoreM σ Bool) := by
  refine addEntry_follows fun hne s => ?_
  have hclean : Clean (Text.trim e.url) (Text.trim e.redirect) :=
    ⟨⟨hne, Text.trimmed_trim e.url⟩, Text.trimmed_trim e.redirect⟩
  exact (LawfulStore.createEndpoint_attempts s _).extendsCleanly hclean

theorem add_cleanly (folder controller : String) (entries : List Entry) :
    Follows ExtendsCleanly (add folder controller entries : StoreM σ Account) := by
  refine add_follows (fun s => ?_) addEntry_cleanly entries
  exact (LawfulStore.createPage_attempts s
    ⟨Text.trim folder, Text.trim controller⟩).extendsCleanly trivial

end Manual

/-! ### Catalogs -/

theorem Activity.extendsCleanly_after (a : Activity) (s : σ) : ExtendsCleanly s (a.after s) := by
  cases a with
  | scan tree options q => exact q.run_extendsCleanly tree options s
  | entry folder controller entries => exact Manual.add_cleanly folder controller entries s

/-- The stores that scans and entries by hand lead to from an empty one, whichever of them
fail. What a store holds beside its rows may change at any time. -/
inductive Catalogued : σ → Prop
  | empty {s : σ} : rows s = .empty → Catalogued s
  | activity {s : σ} (a : Activity) : Catalogued s → Catalogued (a.after s)
  | setting {s t : σ} : rows t = rows s → Catalogued s → Catalogued t

/-- Every url of a catalog is trimmed and not empty, every redirect is trimmed, and no page
has an url twice. -/
theorem catalogued_clean {s : σ} (h : Catalogued s) :
    (∀ e ∈ (rows s).endpoints, Clean e.url e.redirect) ∧
      ((rows s).endpoints.map fun e => (e.pageId, e.url)).Nodup := by
  have hrows : (rows s).Clean ∧ (rows s).Sound := by
    induction h with
    | empty h => exact h ▸ ⟨nofun, Rows.Sound.empty⟩
    | @activity s a _ ih =>
      obtain ⟨is, hi, hclean⟩ := a.extendsCleanly_after s
      exact ⟨hi.rows_eq ▸ ih.1.insertAll hclean, hi.sound ih.2⟩
    | setting h _ ih => exact h ▸ ih
  exact ⟨hrows.1, hrows.2.urls⟩

/-- Entries with white space around them, one of them blank. -/
def spacedEntries : Activity :=
  .entry " v" "a\t" [⟨"\u00a0/api/X ", "\nhome"⟩, ⟨" \u2003", ""⟩]

/-- What these entries leave after a scan that fails. -/
def spacedCatalog : Database :=
  spacedEntries.after
    ((Activity.scan Scan.sharedPage .standard (.below ⟨"missing"⟩)).after Database.empty)

theorem spacedCatalog_clean : Catalogued spacedCatalog ∧
    (∀ e ∈ (rows spacedCatalog).endpoints, Clean e.url e.redirect) ∧
      (rows spacedCatalog).endpoints.map (fun e => (e.url, e.redirect)) = [("/api/X", "home")] := by
  have hempty : Catalogued Database.empty := .empty rfl
  have hcatalog : Catalogued spacedCatalog := .activity spacedEntries (.activity (.scan ..) hempty)
  have hfails : (Activity.scan Scan.sharedPage .standard (.below ⟨"missing"⟩)).after
      Database.empty = Database.empty := by
    cbv
  refine ⟨hcatalog, (catalogued_clean hcatalog).1, ?_⟩
  rw [spacedCatalog, hfails]
  decide +kernel

end EndpointCatalog
