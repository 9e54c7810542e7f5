import EndpointCatalog.Proofs.Directive.Account
import EndpointCatalog.Proofs.Scan.Accounting

/-! Scans without scripts. A scan accounts for the scripts of each controller, and from these
accounts it is told whether controllers refer to scripts of which none could be read. -/

namespace EndpointCatalog.Scan

open Directive

/-! ### The scripts of a text -/

theorem paths_eq_nil (base : Path) {text : List Char} :
    paths base text = [] ↔ references text = [] := by
  constructor
  · intro h
    rw [List.eq_nil_iff_forall_not_mem]
    intro r hr
    obtain ⟨p, hp, -⟩ := exists_mem_distinctBy Path.components
      (List.mem_map_of_mem (f := fun r : Located => resolvePath base r.value) hr)
    rw [paths] at h
    rw [h] at hp
    cases hp
  · intro h
    rw [paths, h]
    rfl

/-- None of the scripts that the text refers to can be read. -/
def Unreadable (tree : FileTree) (base : Path) (text : List Char) : Prop :=
  ∀ path ∈ paths base text, (tree.read path).isOk = false

theorem resolved_eq_zero {tree : FileTree} {base : Path} {letters : LetterCase} {text : List Char} :
    (resolve tree base letters text).resolved = 0 ↔ Unreadable tree base text := by
  rw [resolve_resolved, List.countP_eq_zero]
  simp [Unreadable]

theorem skipped_eq_nil {tree : FileTree} {base : Path} {letters : LetterCase} {text : List Char}
    (h : Unreadable tree base text) :
    (resolve tree base letters text).skipped = [] ↔ references text = [] := by
  rw [← paths_eq_nil base, ← List.map_eq_nil_iff (f := (·.path)), resolve_skipped,
    List.filter_eq_self.2 fun p hp => by rw [h p hp]; rfl]

/-! ### The scripts of a scan -/

/-- The file of a controller has the text. -/
def HasText (tree : FileTree) (path : Path) (text : List Char) : Prop :=
  ∃ bytes, tree.read path = .ok bytes ∧ text = Text.Utf8.decodeLossy bytes

theorem HasText.unique {tree : FileTree} {path : Path} {text text' : List Char}
    (h : HasText tree path text) (h' : HasText tree path text') : text = text' := by
  obtain ⟨bytes, hread, rfl⟩ := h
  obtain ⟨bytes', hread', rfl⟩ := h'
  rw [hread] at hread'
  cases hread'
  rfl

theorem planController_scripts (r : Rows) (path : Path) (c : Controller) :
    (planController r path c).resolved = c.resolved ∧
      (planController r path c).skipped = c.skipped := by
  cases h : r.page? c.identity with
  | some page =>
    rw [planController_of_page h]
    exact ⟨rfl, rfl⟩
  | none =>
    rw [planController_of_no_page h]
    exact ⟨rfl, rfl⟩

theorem mem_plan {r : Rows} {cs : List (Path × Controller)} {p : PageScan} (hp : p ∈ plan r cs) :
    ∃ c, (p.path, c) ∈ cs ∧ p.resolved = c.resolved ∧ p.skipped = c.skipped := by
  induction cs generalizing r with
  | nil => cases hp
  | cons c cs ih =>
    obtain ⟨path, c⟩ := c
    rcases List.mem_cons.1 hp with rfl | hp
    · obtain ⟨hresolved, hskipped⟩ := planController_scripts r path c
      exact ⟨c, by rw [planController_path]; exact List.mem_cons_self, hresolved, hskipped⟩
    · obtain ⟨c', hc', hscripts⟩ := ih hp
      exact ⟨c', List.mem_cons_of_mem _ hc', hscripts⟩

theorem directiveRootUnresolved_eq {summary : Summary} : summary.directiveRootUnresolved = true ↔
    (∀ p ∈ summary.pages, p.resolved = 0) ∧ ∃ p ∈ summary.pages, p.skipped ≠ [] := by
  simp [Summary.directiveRootUnresolved, Summary.skipped]

namespace Request

variable {σ : Type} [LawfulStore σ] {tree : FileTree} {options : ScanOptions} {q : Request} {s : σ}
  {summary : Summary}

/-- Each page of a scan has the scripts of its controller. -/
theorem page_scripts (h : (q.run tree options s).result = .ok summary) {p : PageScan}
    (hp : p ∈ summary.pages) : ∃ text, HasText tree p.path text ∧
      p.resolved = (resolve tree (q.base options) options.letters text).resolved ∧
      p.skipped = (resolve tree (q.base options) options.letters text).skipped := by
  obtain ⟨files, -, -, rfl, -⟩ := Request.run_ok_iff.1 ⟨h, rfl⟩
  obtain ⟨c, hc, hresolved, hskipped⟩ := mem_plan hp
  obtain ⟨bytes, hread, rfl⟩ := Controller.read_eq_ok (read_of_mem_legible hc)
  exact ⟨_, ⟨bytes, hread, rfl⟩, hresolved, hskipped⟩

theorem directiveRootUnresolved_iff (h : (q.run tree options s).result = .ok summary) :
    summary.directiveRootUnresolved = true ↔
      (∃ p ∈ summary.pages, ∃ text, HasText tree p.path text ∧ references text ≠ []) ∧
        ∀ p ∈ summary.pages, ∀ text, HasText tree p.path text →
          Unreadable tree (q.base options) text := by
  have hresolved {p : PageScan} (hp : p ∈ summary.pages) : p.resolved = 0 ↔
      ∀ text, HasText tree p.path text → Unreadable tree (q.base options) text := by
    obtain ⟨text, htext, heq, -⟩ := page_scripts h hp
    rw [heq, resolved_eq_zero]
    exact ⟨fun hu text' htext' => htext.unique htext' ▸ hu, fun hu => hu text htext⟩
  have hskipped {p : PageScan} (hp : p ∈ summary.pages)
      (hu : ∀ text, HasText tree p.path text → Unreadable tree (q.base options) text) :
      p.skipped ≠ [] ↔ ∃ text, HasText tree p.path text ∧ references text ≠ [] := by
    obtain ⟨text, htext, -, heq⟩ := page_scripts h hp
    rw [heq, ne_eq, skipped_eq_nil (hu text htext)]
    exact ⟨fun hrefs => ⟨text, htext, hrefs⟩,
      fun ⟨text', htext', hrefs⟩ => htext.unique htext' ▸ hrefs⟩
  rw [directiveRootUnresolved_eq]
  constructor
  · rintro ⟨hzero, p, hp, hne⟩
    have hu := fun p hp => (hresolved hp).1 (hzero p hp)
    exact ⟨⟨p, hp, (hskipped hp (hu p hp)).1 hne⟩, hu⟩
  · rintro ⟨⟨p, hp, hrefs⟩, hu⟩
    exact ⟨fun p hp => (hresolved hp).2 (hu p hp), p, hp, (hskipped hp (hu p hp)).2 hrefs⟩

end Request

/-- Every script that a text refers to is accounted for. So a scan is said to have no script of
its directives exactly if some controller refers to a script and none of them can be read. -/
theorem directives_accounted (tree : FileTree) :
    (∀ base letters text,
      Accounted tree base letters text (resolve tree base letters text)) ∧
    ∀ {σ : Type} [LawfulStore σ] (options : ScanOptions) (q : Request) (s : σ) (summary : Summary),
      (q.run tree options s).result = .ok summary →
        (summary.directiveRootUnresolved = true ↔
          (∃ p ∈ summary.pages, ∃ text, HasText tree p.path text ∧ references text ≠ []) ∧
            ∀ p ∈ summary.pages, ∀ text, HasText tree p.path text →
              Unreadable tree (q.base options) text) :=
  ⟨resolve_accounted tree, fun _ _ _ _ => Request.directiveRootUnresolved_iff⟩

theorem sharedPage_reference :
    references "/api/x directives/d.js".toList = [⟨"directives/d.js", 7⟩] := by
  cbv

theorem sharedPage_missing :
    sharedPage.read (resolvePath ⟨"w"⟩ "directives/d.js") = .error .notFound := by
  cbv

/-- From another root the script of the shared page is not found. -/
theorem sharedPage_unresolved : ∃ summary,
    (sharedPageRequest.run sharedPage { ScanOptions.standard with directiveRoot := some ⟨"w"⟩ }
      Database.empty).result = .ok summary ∧ summary.directiveRootUnresolved = true := by
  obtain ⟨summary, h⟩ := sharedPage_isOk_with
    { ScanOptions.standard with directiveRoot := some ⟨"w"⟩ } (s := Database.empty)
    fun i => by cases i <;> rfl
  refine ⟨summary, h, ((directives_accounted sharedPage).2 _ _ _ _ h).2 ?_⟩
  have hread : HasText sharedPage ⟨"v/a.js"⟩ "$state.go(p)/api/x".toList :=
    ⟨Text.Utf8.encode "$state.go(p)/api/x".toList, by cbv, by cbv⟩
  have hread' : HasText sharedPage ⟨"w/v/a.js"⟩ "/api/x directives/d.js".toList :=
    ⟨Text.Utf8.encode "/api/x directives/d.js".toList, by cbv, by cbv⟩
  have hrefs : references "$state.go(p)/api/x".toList = [] := by cbv
  have hpages (path : Path) : path ∈ summary.pages.map (·.path) ↔
      path = ⟨"w/v/a.js"⟩ ∨ path = ⟨"v/a.js"⟩ := by
    rw [← Except.ok.inj (Request.accounts h).1, List.mem_mergeSort]
    simp
  constructor
  · obtain ⟨p, hp, heq⟩ := List.mem_map.1 ((hpages ⟨"w/v/a.js"⟩).2 (.inl rfl))
    refine ⟨p, hp, _, heq ▸ hread', ?_⟩
    rw [sharedPage_reference]
    exact List.cons_ne_nil _ _
  · intro p hp text htext path hpath'
    obtain ⟨r, hr, rfl⟩ := List.mem_map.1 (mem_of_mem_distinctBy hpath')
    rcases (hpages p.path).1 (List.mem_map_of_mem hp) with heq | heq
    · rw [heq] at htext
      rw [htext.unique hread', sharedPage_reference, List.mem_singleton] at hr
      rw [hr]
      exact congrArg Except.isOk sharedPage_missing
    · rw [heq] at htext
      rw [htext.unique hread, hrefs] at hr
      cases hr

end EndpointCatalog.Scan
