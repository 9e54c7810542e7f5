import EndpointCatalog.Proofs.Directive.Resolve
import EndpointCatalog.Proofs.Scan.FirstWriter
import EndpointCatalog.Proofs.Scan.Outcome
import EndpointCatalog.Proofs.Store.Reachable

/-! What a scan makes of the store, said without its steps. A file yields the urls of its
text and of the scripts that it refers to and that can be read. After a scan the store
has these urls besides those it had, and the earliest file decides on a redirect. -/

namespace EndpointCatalog.Scan

open StoreView

section Yield

variable (tree : FileTree) (letters : Directive.LetterCase) (base : Path)

/-- The offset at which a text brings in a url: its own one if the text itself has the url,
and otherwise that of the first reference to a script that has it. -/
inductive BringsIn (text : List Char) (url : String) : Nat → Prop
  | direct {offset : Nat} : ⟨url, offset⟩ ∈ Extract.endpoints text → BringsIn text url offset
  | script {before after : List Directive.Target} {t : Directive.Target} :
      (∀ l ∈ Extract.endpoints text, l.value ≠ url) →
      Directive.targets base text = before ++ t :: after → t.Has tree letters url →
      (∀ t' ∈ before, ¬ t'.Has tree letters url) → BringsIn text url t.reference.offset

/-- A file yields a url from its text or from a readable script that it refers to. A script
with several spellings counts in the first of them. -/
def Yields (file : Path) (url : String) : Prop :=
  ∃ bytes, tree.read file = .ok bytes ∧
    ((∃ l ∈ Extract.endpoints (Text.Utf8.decodeLossy bytes), l.value = url) ∨
      ∃ t ∈ Directive.targets base (Text.Utf8.decodeLossy bytes), t.Has tree letters url)

end Yield

/-- The rows `r'` that a scan of `files` makes of the rows `r`. -/
structure Scanned (tree : FileTree) (options : ScanOptions) (base : Path) (files : List Path)
    (r r' : Rows) : Prop where
  has_iff (id : PageIdentity) (url : String) : r'.Has id url ↔ r.Has id url ∨
    ∃ file ∈ files, file.pageIdentity = id ∧ Yields tree options.letters base file url
  paged : ∀ file ∈ files, ∃ p ∈ r'.pages, p.identity = file.pageIdentity
  redirects : ∀ p ∈ r'.pages, ∀ e ∈ r'.endpoints, e.pageId = p.id → ¬ r.Has p.identity e.url →
    ∃ earlier file later bytes offset, files = earlier ++ file :: later ∧
      (∀ f ∈ earlier, f.pageIdentity = p.identity → ¬ Yields tree options.letters base f e.url) ∧
      file.pageIdentity = p.identity ∧ tree.read file = .ok bytes ∧
      BringsIn tree options.letters base (Text.Utf8.decodeLossy bytes) e.url offset ∧
      e.redirect = options.policy.choose (Extract.redirects (Text.Utf8.decodeLossy bytes)) offset
  kept : r.Grows r'

/-! ### One file -/

section Controller

variable {tree : FileTree} {options : ScanOptions} {base path : Path} {text : List Char}
  {id : PageIdentity} {url redirect : String}

theorem find?_locatedEndpoints :
    (locatedEndpoints text (Directive.resolve tree base options.letters text)).find?
        (·.value == url) =
      ((Extract.endpoints text).find? (·.value == url)).or
        ((Directive.targets base text).findSome? (·.endpoint? tree options.letters url)) := by
  rw [locatedEndpoints, find?_distinctBy, List.find?_append, Directive.find?_resolve]

theorem bringsIn_of_find? {l : Located}
    (h : (locatedEndpoints text (Directive.resolve tree base options.letters text)).find?
      (·.value == url) = some l) : BringsIn tree options.letters base text url l.offset := by
  rw [find?_locatedEndpoints] at h
  cases hd : (Extract.endpoints text).find? (·.value == url) with
  | some d =>
    rw [hd, Option.some_or] at h
    cases h
    have hv : l.value = url := by simpa using List.find?_some hd
    exact .direct (hv ▸ List.mem_of_find?_eq_some hd)
  | none =>
    rw [hd, Option.none_or] at h
    obtain ⟨before, t, after, htargets, ht, hbefore⟩ := List.findSome?_eq_some_iff.1 h
    obtain ⟨rfl, hhas⟩ := Directive.Target.endpoint?_eq_some.1 ht
    refine .script ?_ htargets hhas fun t' ht' => ?_
    · simpa using List.find?_eq_none.1 hd
    · exact Directive.Target.endpoint?_eq_none.1 (hbefore t' ht')

theorem find?_locatedEndpoints_isSome :
    ((locatedEndpoints text (Directive.resolve tree base options.letters text)).find?
        (·.value == url)).isSome ↔
      (∃ l ∈ Extract.endpoints text, l.value = url) ∨
        ∃ t ∈ Directive.targets base text, t.Has tree options.letters url := by
  rw [find?_locatedEndpoints, Option.isSome_or, Bool.or_eq_true, List.find?_isSome,
    List.findSome?_isSome_iff]
  refine or_congr (by simp) (exists_congr fun t => and_congr_right fun _ => ?_)
  rw [Option.isSome_iff_ne_none, ne_eq, Directive.Target.endpoint?_eq_none, not_not]

theorem Controller.redirect?_ofText :
    (Controller.ofText tree options base path text).redirect? id url =
      if path.pageIdentity = id then
        ((locatedEndpoints text (Directive.resolve tree base options.letters text)).find?
          (·.value == url)).map fun l => options.policy.choose (Extract.redirects text) l.offset
      else none := by
  simp only [Controller.redirect?, Controller.ofText, List.find?_map, Option.map_map]
  rfl

/-- A controller with the given names has the urls that its file yields. -/
theorem Controller.redirect?_isSome {c : Controller}
    (h : Controller.read tree options base path = .ok c) :
    (c.redirect? id url).isSome ↔
      path.pageIdentity = id ∧ Yields tree options.letters base path url := by
  obtain ⟨bytes, hbytes, rfl⟩ := Controller.read_eq_ok h
  rw [Controller.redirect?_ofText, Yields, hbytes]
  split
  next hid =>
    rw [Option.isSome_map, find?_locatedEndpoints_isSome]
    simp [hid]
  next hid => simp [hid]

theorem Controller.redirect?_eq_some {c : Controller}
    (h : Controller.read tree options base path = .ok c) (hr : c.redirect? id url = some redirect) :
    path.pageIdentity = id ∧ ∃ bytes offset, tree.read path = .ok bytes ∧
      BringsIn tree options.letters base (Text.Utf8.decodeLossy bytes) url offset ∧
      redirect =
        options.policy.choose (Extract.redirects (Text.Utf8.decodeLossy bytes)) offset := by
  obtain ⟨bytes, hbytes, rfl⟩ := Controller.read_eq_ok h
  rw [Controller.redirect?_ofText] at hr
  split at hr
  next hid =>
    obtain ⟨l, hl, rfl⟩ := Option.map_eq_some_iff.1 hr
    exact ⟨hid, bytes, l.offset, hbytes, bringsIn_of_find? hl, rfl⟩
  next => cases hr

end Controller

/-! ### Several files -/

section Files

variable {read : Path → Except IoError Controller} {files : List Path} {id : PageIdentity}
  {url redirect : String}

theorem firstRedirect?_isSome (h : obstacle? read files = none) :
    (firstRedirect? (legible read files) id url).isSome ↔
      ∃ file ∈ files, ∃ c, read file = .ok c ∧ (c.redirect? id url).isSome := by
  rw [firstRedirect?, List.findSome?_isSome_iff]
  constructor
  · rintro ⟨⟨file, c⟩, hc, hs⟩
    have hf : file ∈ files := map_fst_legible h ▸ List.mem_map_of_mem hc
    exact ⟨file, hf, c, read_of_mem_legible hc, hs⟩
  · rintro ⟨file, hf, c, hread, hs⟩
    obtain ⟨d, hd⟩ := exists_mem_legible h hf
    obtain rfl : d = c := Except.ok.inj ((read_of_mem_legible hd).symm.trans hread)
    exact ⟨(file, d), hd, hs⟩

/-- The redirect of a url comes from the earliest file with the names and the url. -/
theorem firstRedirect?_eq_some (h : obstacle? read files = none)
    (hr : firstRedirect? (legible read files) id url = some redirect) :
    ∃ earlier file later c, files = earlier ++ file :: later ∧ read file = .ok c ∧
      c.redirect? id url = some redirect ∧
      ∀ f ∈ earlier, ∃ d, read f = .ok d ∧ d.redirect? id url = none := by
  obtain ⟨before, ⟨file, c⟩, after, hcs, hc, hbefore⟩ := List.findSome?_eq_some_iff.1 hr
  refine ⟨before.map (·.1), file, after.map (·.1), c, ?_, ?_, hc, fun f hf => ?_⟩
  · rw [← map_fst_legible h, hcs, List.map_append, List.map_cons]
  · exact read_of_mem_legible (hcs ▸ List.mem_append_right before List.mem_cons_self)
  · obtain ⟨x, hx, rfl⟩ := List.mem_map.1 hf
    exact ⟨x.2, read_of_mem_legible (hcs ▸ List.mem_append_left _ hx), hbefore x hx⟩

end Files

theorem scanned_plan {tree : FileTree} {options : ScanOptions} {base : Path} {files : List Path}
    {r : Rows} (sound : r.Sound) (h : obstacle? (Controller.read tree options base) files = none) :
    Scanned tree options base files r (r.insertAll ((plan r
      (legible (Controller.read tree options base) files)).flatMap (·.insertions))) := by
  set cs := legible (Controller.read tree options base) files
  set r' := r.insertAll ((plan r cs).flatMap (·.insertions))
  have sound' : r'.Sound := sound.insertAll (plan_fitAll r cs)
  have hredirect (id : PageIdentity) (url : String) :
      r'.redirect? id url = (r.redirect? id url).or (firstRedirect? cs id url) :=
    redirect?_plan sound cs id url
  constructor
  case has_iff =>
    intro id url
    rw [sound'.has_iff, sound.has_iff, hredirect, Option.isSome_or, Bool.or_eq_true,
      firstRedirect?_isSome h]
    refine or_congr_right (exists_congr fun file => and_congr_right fun hf => ?_)
    constructor
    · rintro ⟨c, hread, hs⟩
      exact (Controller.redirect?_isSome hread).1 hs
    · intro hy
      obtain ⟨c, hc⟩ := exists_mem_legible h hf
      have hread := read_of_mem_legible hc
      exact ⟨c, hread, (Controller.redirect?_isSome hread).2 hy⟩
  case paged =>
    intro file hf
    obtain ⟨c, hc⟩ := exists_mem_legible h hf
    obtain ⟨p, hp, _⟩ := hasAll_plan r hc
    obtain ⟨hm, hid⟩ := Rows.page?_eq_some hp
    obtain ⟨bytes, _, hread⟩ := Controller.read_eq_ok (read_of_mem_legible hc)
    exact ⟨p, hm, by rw [hid, hread, Controller.ofText]⟩
  case redirects =>
    intro p hp e he hid hnew
    have hr : firstRedirect? cs p.identity e.url = some e.redirect := by
      have hsome := sound'.redirect?_of_mem hp he hid
      have hnone : r.redirect? p.identity e.url = none := by
        rwa [sound.has_iff, Option.not_isSome_iff_eq_none] at hnew
      rwa [hredirect, hnone, Option.none_or] at hsome
    obtain ⟨earlier, file, later, c, hfiles, hread, hc, hearlier⟩ := firstRedirect?_eq_some h hr
    obtain ⟨hid', bytes, offset, hbytes, hin, hchosen⟩ := Controller.redirect?_eq_some hread hc
    refine ⟨earlier, file, later, bytes, offset, hfiles, ?_, hid', hbytes, hin, hchosen⟩
    intro f hf hfid hy
    obtain ⟨d, hd, hnone⟩ := hearlier f hf
    have hsome := (Controller.redirect?_isSome hd).2 ⟨hfid, hy⟩
    rw [hnone] at hsome
    cases hsome
  case kept => exact Rows.grows_insertAll r _

/-- A successful scan of a reachable store leaves the rows that its files call for. -/
theorem Request.run_scanned {σ : Type} [LawfulStore σ] {s : σ} (reachable : Reachable s)
    {tree : FileTree} {options : ScanOptions} {q : Request} {summary : Summary}
    (h : (q.run tree options s).result = .ok summary) :
    ∃ files, q.files tree options.fileSuffix = .ok files ∧
      Scanned tree options (q.base options) files (rows s) (rows (q.run tree options s).store) := by
  obtain ⟨files, hfiles, hread, hsummary, hi⟩ := Request.run_ok_iff.1 ⟨h, rfl⟩
  refine ⟨files, hfiles, ?_⟩
  rw [hi.rows_eq, hsummary]
  exact scanned_plan reachable.sound hread

theorem sharedPage_yields :
    Yields sharedPage .preserve (sharedPageRequest.base .standard) ⟨"v/a.js"⟩ "/api/x" := by
  have hread : sharedPage.read ⟨"v/a.js"⟩ = .ok (Text.Utf8.encode "$state.go(p)/api/x".toList) := by
    cbv
  have hfound : Extract.endpoints (Text.Utf8.decodeLossy (Text.Utf8.encode
      "$state.go(p)/api/x".toList)) = [⟨"/api/x", 12⟩] := by cbv
  exact ⟨_, hread, .inl ⟨⟨"/api/x", 12⟩, hfound ▸ List.mem_singleton_self _, rfl⟩⟩

theorem sharedPage_scanned : ∃ summary,
    (sharedPageRequest.run sharedPage .standard MemoryStore.empty).result = .ok summary ∧
      (rows (sharedPageRequest.run sharedPage .standard MemoryStore.empty).store).Has
        ⟨"v", "a"⟩ "/api/x" := by
  obtain ⟨summary, h⟩ := sharedPage_isOk (s := MemoryStore.empty) fun _ => rfl
  obtain ⟨files, hfiles, hscanned⟩ := Request.run_scanned Reachable.memory h
  cases hfiles
  have hfile : (⟨"v/a.js"⟩ : Path) ∈ [⟨"w/v/a.js"⟩, ⟨"v/a.js"⟩].mergeSort Path.le := by simp
  exact ⟨summary, h, (hscanned.has_iff _ _).2 (.inr ⟨_, hfile, by cbv, sharedPage_yields⟩)⟩

end EndpointCatalog.Scan
