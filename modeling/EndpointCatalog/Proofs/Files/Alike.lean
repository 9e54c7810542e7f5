import EndpointCatalog.Proofs.Files.Changes

/-! Spellings of one path. In a tree without links, paths with the same components lead to
the same entry, if both can be looked up and end in a step; and steps that do not go up lead to
different places if they are different. -/

namespace EndpointCatalog

/-! ### Pieces -/

namespace Text

variable {isSeparator : Char → Bool} {cs : List Char} {c : Char}

theorem exists_consHead (d : Char) {pieces : List (List Char)} (h : pieces ≠ []) :
    ∃ piece rest, pieces = piece :: rest ∧ consHead d pieces = (d :: piece) :: rest := by
  obtain ⟨piece, rest, rfl⟩ := List.exists_cons_of_ne_nil h
  exact ⟨piece, rest, rfl, rfl⟩

theorem mem_split (hc : isSeparator c = false) :
    (∃ piece ∈ split isSeparator cs, c ∈ piece) ↔ c ∈ cs := by
  induction cs with
  | nil => simp [split]
  | cons d ds ih =>
    rw [split, List.mem_cons, ← ih]
    split
    next hd =>
      have hne : c ≠ d := by
        rintro rfl
        exact Bool.false_ne_true (hc.symm.trans hd)
      simp [hne]
    next =>
      obtain ⟨piece, rest, hsplit, hcons⟩ := exists_consHead d (split_ne_nil ds)
      rw [hcons, hsplit]
      simp [or_assoc]

/-- The last character of a text is in the last piece, if it is no separator. -/
theorem getLast?_split (hc : isSeparator c = false) (h : cs.getLast? = some c) :
    ∃ piece, (split isSeparator cs).getLast? = some piece ∧ c ∈ piece := by
  induction cs with
  | nil => cases h
  | cons d ds ih =>
    rw [split]
    rcases eq_or_ne ds [] with rfl | hne
    · obtain rfl : d = c := Option.some.inj h
      exact ⟨[d], by simp [split, hc, consHead], List.mem_singleton_self d⟩
    · rw [List.getLast?_cons_of_ne_nil hne] at h
      obtain ⟨last, hlast, hmem⟩ := ih h
      split
      · exact ⟨last, by rw [List.getLast?_cons_of_ne_nil (split_ne_nil ds), hlast], hmem⟩
      · obtain ⟨piece, rest, hsplit, hcons⟩ := exists_consHead d (split_ne_nil ds)
        rw [hcons]
        rw [hsplit] at hlast
        rcases eq_or_ne rest [] with rfl | hrest
        · obtain rfl : piece = last := Option.some.inj hlast
          exact ⟨d :: piece, rfl, List.mem_cons_of_mem d hmem⟩
        · rw [List.getLast?_cons_of_ne_nil hrest] at hlast ⊢
          exact ⟨last, hlast, hmem⟩

end Text

namespace Path

/-- The steps of a path have all of its characters but slashes and points. -/
theorem mem_text_iff_steps {p : Path} {c : Char} (hslash : isSlash c = false) (hdot : c ≠ '.') :
    c ∈ p.text.toList ↔ ∃ step ∈ p.steps, c ∈ step.toList := by
  rw [← Text.mem_split hslash, steps, FileTree.pieces]
  constructor
  · rintro ⟨piece, hpiece, hc⟩
    refine ⟨String.ofList piece, ?_, by rwa [String.toList_ofList]⟩
    exact List.mem_filter.2 ⟨List.mem_map_of_mem hpiece, isStep_ofList hc hdot⟩
  · rintro ⟨step, hstep, hc⟩
    obtain ⟨piece, hpiece, rfl⟩ := List.mem_map.1 (List.mem_filter.1 hstep).1
    exact ⟨piece, hpiece, by rwa [String.toList_ofList] at hc⟩

/-- A path below another one ends in the last piece that is joined. -/
theorem getLast?_pieces_below (p : Path) {ps : List String} (h : ∀ q ∈ ps, Joinable q)
    (hne : ps ≠ []) : (FileTree.pieces (p.below ps).text).getLast? = ps.getLast? := by
  obtain ⟨front, q, rfl⟩ := (List.eq_nil_or_concat' ps).resolve_left hne
  have hq : Joinable q := h q (by simp)
  have hjoin : p.below (front ++ [q]) = (p.below front).join q := List.foldl_concat ..
  rw [hjoin, List.getLast?_concat]
  rcases eq_or_ne (p.below front).text "" with hempty | hempty
  · have hbare : (p.below front).join q = ⟨q⟩ := by
      rw [join, hq.not_isAbsolute, hempty]
      exact congrArg Path.mk (String.empty_append ..)
    rw [hbare, FileTree.pieces, Text.split_eq_singleton hq.no_slash, List.map_singleton,
      String.ofList_toList, List.getLast?_singleton]
  · obtain ⟨before, -, hpieces⟩ := pieces_join hq hempty
    rw [hpieces, List.getLast?_concat]

end Path

namespace FileTree

variable {t : FileTree} {n m : Nat} {here loc : Location}

/-! ### Pieces that lead nowhere, again -/

theorem Leads.folder {piece : String} {rest : List String}
    (h : t.Leads n here (piece :: rest) m loc) : t.entry? here = some .folder := by
  cases h <;> assumption

/-- The pieces that lead nowhere can be put back, as long as a step comes after them. -/
theorem Leads.of_filter (ht : t.Plain) {path : List String}
    (h : t.Leads n here (path.filter Path.isStep) m loc)
    (hlast : ∀ piece ∈ path.getLast?, Path.isStep piece = true) : t.Leads n here path m loc := by
  induction path generalizing n here with
  | nil => exact h
  | cons piece path ih =>
    rcases eq_or_ne path [] with rfl | hne
    · rwa [List.filter_cons_of_pos (hlast piece rfl)] at h
    · rw [List.getLast?_cons_of_ne_nil hne] at hlast
      by_cases hstep : Path.isStep piece = true
      · rw [List.filter_cons_of_pos hstep] at h
        cases h with
        | stay _ hidle => exact absurd (hstep.symm.trans hidle) (by simp)
        | up hf hl => exact .up hf (ih hl hlast)
        | follow _ _ he => exact absurd he (ht.not_link _ _)
        | down hf hp he hlink hl => exact .down hf hp he hlink (ih hl hlast)
      · rw [List.filter_cons_of_neg hstep] at h
        obtain ⟨last, hpath⟩ := Option.ne_none_iff_exists'.1 (mt List.getLast?_eq_none_iff.1 hne)
        have hmem : last ∈ path.filter Path.isStep :=
          List.mem_filter.2 ⟨List.mem_of_mem_getLast? hpath, hlast last hpath⟩
        obtain ⟨step, rest, hsteps⟩ := List.exists_cons_of_ne_nil (List.ne_nil_of_mem hmem)
        exact .stay (hsteps ▸ h).folder (by simpa using hstep) (ih h hlast)

theorem resolve_eq_of_components (ht : t.Plain) {p q : Path} (h : p.components = q.components)
    (short : q.text.utf8ByteSize < maxPathSize)
    (hlast : ∀ piece ∈ (pieces q.text).getLast?, Path.isStep piece = true) {e : Entry}
    (hp : t.resolve p = .ok (loc, e)) : t.resolve q = .ok (loc, e) := by
  obtain ⟨sought, ⟨m, hl⟩, he⟩ := resolve_eq_ok_iff.1 hp
  obtain ⟨habs, hsteps⟩ := Path.steps_eq_of_components h
  have hlq : t.Leads maxLinks (start t.workDir q) (pieces q.text) m loc := by
    refine .of_filter ht ?_ hlast
    rw [start, ← habs, ← start, ← Path.steps, ← hsteps]
    exact hl.filter
  refine resolve_eq_ok_iff.2 ⟨⟨?_, ?_, short⟩, ⟨m, hlq⟩, he⟩
  · intro hempty
    rw [hempty] at hlast
    exact absurd (hlast "" rfl) (by decide)
  · intro hnul
    rw [Path.mem_text_iff_steps rfl (by decide), ← hsteps,
      ← Path.mem_text_iff_steps rfl (by decide)] at hnul
    exact sought.no_nul hnul

/-! ### Files -/

/-- The location of the file that a path leads to. -/
def file? (t : FileTree) (p : Path) : Option Location :=
  match t.resolve p with
  | .ok (loc, .file _) => some loc
  | _ => none

theorem file?_eq_some {p : Path} :
    t.file? p = some loc ↔ ∃ content, t.resolve p = .ok (loc, .file content) := by
  rw [file?]
  split
  next place content h => simp [h]
  next h => exact iff_of_false nofun fun ⟨content, hc⟩ => h loc content hc

theorem isSome_file? (p : Path) : (t.file? p).isSome = (t.read p).isOk := by
  rw [file?, read]
  cases t.resolve p with
  | error e => rfl
  | ok found =>
    obtain ⟨place, e⟩ := found
    cases e <;> rfl

theorem file?_eq_of_components (ht : t.Plain) {p q : Path} (h : p.components = q.components)
    (short : q.text.utf8ByteSize < maxPathSize)
    (hlast : ∀ piece ∈ (pieces q.text).getLast?, Path.isStep piece = true)
    (hp : t.file? p = some loc) : t.file? q = some loc := by
  obtain ⟨content, hcontent⟩ := file?_eq_some.1 hp
  exact file?_eq_some.2 ⟨content, resolve_eq_of_components ht h short hlast hcontent⟩

/-! ### Down -/

theorem Leads.descend (ht : t.Plain) {path : List String} (h : t.Leads n here path m loc)
    (hsteps : ∀ piece ∈ path, Path.isStep piece = true) (hups : ".." ∉ path) :
    loc = here ++ path := by
  induction h with
  | done => exact (List.append_nil _).symm
  | stay _ hidle =>
    exact absurd ((hsteps _ List.mem_cons_self).symm.trans hidle) (by simp)
  | up => exact absurd List.mem_cons_self hups
  | follow _ _ he => exact absurd he (ht.not_link _ _)
  | down _ _ _ _ _ ih =>
    rw [ih (fun _ h => hsteps _ (List.mem_cons_of_mem _ h)) (mt (List.mem_cons_of_mem _) hups),
      List.append_assoc, List.singleton_append]

/-- The pieces below a path tell the files there apart, if none of them goes up. -/
theorem steps_eq_of_file? (ht : t.Plain) {p : Path} (hp : p.text ≠ "") {ps qs : List String}
    (hps : ∀ q ∈ ps, Path.Joinable q) (hqs : ∀ q ∈ qs, Path.Joinable q) (hups : ".." ∉ ps)
    (hups' : ".." ∉ qs) (h : t.file? (p.below ps) = some loc)
    (h' : t.file? (p.below qs) = some loc) :
    ps.filter Path.isStep = qs.filter Path.isStep := by
  have hdown {ps : List String} (hps : ∀ q ∈ ps, Path.Joinable q) (hups : ".." ∉ ps)
      (h : t.file? (p.below ps) = some loc) : ∃ mid e,
        t.walk .target maxLinks (start t.workDir p) p.steps = .ok (.found mid e) ∧
          loc = mid ++ ps.filter Path.isStep := by
    obtain ⟨content, hcontent⟩ := file?_eq_some.1 h
    obtain ⟨⟨m, hl⟩, he⟩ := leads_of_resolve hcontent
    replace hl := hl.filter
    rw [← Path.steps, Path.steps_below hp hps, start, Path.isAbsolute_below hp hps, ← start] at hl
    obtain ⟨k, mid, hfront, hrest⟩ := hl.split
    have hmid : ∃ e, t.entry? mid = some e := by
      cases hsteps : ps.filter Path.isStep with
      | nil =>
        rw [hsteps] at hrest
        cases hrest
        exact ⟨_, he⟩
      | cons step rest => exact ⟨_, (hsteps ▸ hrest).folder⟩
    obtain ⟨e, hmid⟩ := hmid
    refine ⟨mid, e, walk_eq_found_iff.2 ⟨⟨k, hfront⟩, hmid⟩, hrest.descend ht ?_ ?_⟩
    · exact fun piece hpiece => (List.mem_filter.1 hpiece).2
    · exact fun hup => hups (List.mem_filter.1 hup).1
  obtain ⟨mid, e, hwalk, hloc⟩ := hdown hps hups h
  obtain ⟨mid', e', hwalk', hloc'⟩ := hdown hqs hups' h'
  obtain ⟨rfl, -⟩ : mid = mid' ∧ e = e' := by simpa using hwalk.symm.trans hwalk'
  exact List.append_cancel_left (hloc.symm.trans hloc')

end FileTree

end EndpointCatalog
