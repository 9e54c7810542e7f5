import EndpointCatalog.Proofs.Scan.Halt

/-! The pages of a scan. Which pages a scan opens depends on the names of its controllers
alone, and so do the pages that the rows have afterwards. -/

namespace EndpointCatalog

namespace Rows

/-- The names that no page has yet, each where it first comes. -/
def missing : Rows → List PageIdentity → List PageIdentity
  | _, [] => []
  | r, id :: ids =>
    if (r.page? id).isSome then missing r ids else id :: missing (r.addPage id) ids

theorem missing_subset (r : Rows) (ids : List PageIdentity) : r.missing ids ⊆ ids := by
  induction ids generalizing r with
  | nil => exact List.Subset.refl _
  | cons id ids ih =>
    rw [missing]
    split
    · exact fun x hx => List.mem_cons_of_mem id (ih r hx)
    · exact List.cons_subset_cons id (ih _)

theorem missing_insertAll_endpoints (r : Rows) (es : List NewEndpoint) (ids : List PageIdentity) :
    (r.insertAll (es.map .endpoint)).missing ids = r.missing ids := by
  induction ids generalizing r with
  | nil => rfl
  | cons id ids ih =>
    have hadd : (r.insertAll (es.map .endpoint)).addPage id =
        (r.addPage id).insertAll (es.map .endpoint) := Scan.insertAll_pages_endpoints r [id] es
    rw [missing, missing, Scan.page?_insertAll_endpoints, hadd, ih, ih]

theorem pages_insertAll_endpoints (r : Rows) (es : List NewEndpoint) :
    (r.insertAll (es.map .endpoint)).pages = r.pages := by
  induction es generalizing r with
  | nil => rfl
  | cons e es ih => exact ih (r.addEndpoint e)

theorem endpoints_insertAll_pages (r : Rows) (ids : List PageIdentity) :
    (r.insertAll (ids.map .page)).endpoints = r.endpoints := by
  induction ids generalizing r with
  | nil => rfl
  | cons id ids ih => exact ih (r.addPage id)

theorem mem_pages_insertAll_pages {r : Rows} {ids : List PageIdentity} {p : Page}
    (h : p ∈ (r.insertAll (ids.map .page)).pages) : p ∈ r.pages ∨ p.identity ∈ ids := by
  induction ids generalizing r with
  | nil => exact .inl h
  | cons id ids ih =>
    rcases ih (r := r.addPage id) h with h | h
    · rcases List.mem_append.1 h with h | h
      · exact .inl h
      · obtain rfl := List.mem_singleton.1 h
        exact .inr List.mem_cons_self
    · exact .inr (List.mem_cons_of_mem id h)

end Rows

namespace Scan

/-- The pages that a scan opens depend on the names of its controllers alone. -/
theorem opened_plan (r : Rows) (cs : List (Path × Controller)) :
    (plan r cs).flatMap (·.opened) = r.missing (cs.map (·.2.identity)) := by
  induction cs generalizing r with
  | nil => rfl
  | cons c cs ih =>
    obtain ⟨path, c⟩ := c
    rw [plan, List.flatMap_cons, ih, List.map_cons, Rows.missing]
    cases hp : r.page? c.identity with
    | some page =>
      rw [insertions_of_page hp, planController_of_page hp, Rows.missing_insertAll_endpoints]
      rfl
    | none =>
      rw [insertions_of_no_page hp, planController_of_no_page hp, Rows.insertAll_cons,
        Rows.missing_insertAll_endpoints]
      rfl

theorem map_identity_legible {tree : FileTree} {options : ScanOptions} {base : Path}
    {files : List Path} (h : obstacle? (Controller.read tree options base) files = none) :
    (legible (Controller.read tree options base) files).map (·.2.identity) =
      files.map (·.pageIdentity) := by
  rw [← congrArg (List.map (·.pageIdentity)) (map_fst_legible h), List.map_map]
  refine List.map_congr_left fun c hc => ?_
  obtain ⟨path, c⟩ := c
  obtain ⟨bytes, _, hread⟩ := Controller.read_eq_ok (read_of_mem_legible hc)
  simp only [Function.comp, hread, Controller.ofText]

theorem pages_insertAll_atOnce (r : Rows) (persistence : Persistence) (ps : List PageScan) :
    (r.insertAll (ps.flatMap (atOnce persistence))).pages =
      (r.insertAll ((ps.flatMap (·.opened)).map .page)).pages := by
  cases persistence with
  | incremental =>
    change (r.insertAll (ps.flatMap (·.insertions))).pages = _
    rw [← insertAll_pagesFirst, pagesFirst, Rows.insertAll_append, Rows.pages_insertAll_endpoints]
  | batched => rw [flatMap_atOnce_batched]

end Scan

end EndpointCatalog
