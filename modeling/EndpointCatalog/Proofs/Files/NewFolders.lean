import EndpointCatalog.Proofs.Files.Alike
import EndpointCatalog.Proofs.Files.Folders
import EndpointCatalog.Proofs.Text.Trim

/-! Names of new folders. A folder that is created for a path is new because a name of that
path is, so that nothing else is added to a tree when the folders above a path are created,
however the links on the way lead. -/

namespace EndpointCatalog

/-! ### Names in paths -/

namespace Path

variable {p q : Path} {name : String}

theorem name_mem_components : .name name ∈ p.components ↔
    name ∈ FileTree.pieces p.text ∧ isStep name = true ∧ name ≠ ".." := by
  have hfront : .name name ∉ p.front := by
    rw [front]
    split <;> simp
  rw [components_eq, List.mem_append, or_iff_right hfront, List.mem_map]
  constructor
  · rintro ⟨piece, hpiece, hname⟩
    rw [Component.ofPiece] at hname
    split_ifs at hname with hup
    obtain rfl : piece = name := Component.name.inj hname
    obtain ⟨hmem, hstep⟩ := List.mem_filter.1 hpiece
    exact ⟨hmem, hstep, hup⟩
  · rintro ⟨hmem, hstep, hup⟩
    exact ⟨name, List.mem_filter.2 ⟨hmem, hstep⟩, if_neg hup⟩

theorem pieces_append_slash (a b : String) :
    FileTree.pieces (a ++ "/" ++ b) = FileTree.pieces a ++ FileTree.pieces b := by
  have hslash : isSlash '/' = true := rfl
  simp [FileTree.pieces, Text.split_append_separator _ hslash]

theorem mem_pieces_intercalate {texts : List String} {piece : String}
    (h : piece ∈ FileTree.pieces ("/".intercalate texts)) :
    piece = "" ∨ ∃ text ∈ texts, piece ∈ FileTree.pieces text := by
  induction texts with
  | nil => exact .inl (List.mem_singleton.1 h)
  | cons text texts ih =>
    rcases eq_or_ne texts [] with rfl | hne
    · rw [String.intercalate_singleton] at h
      exact .inr ⟨text, List.mem_singleton_self text, h⟩
    · rw [String.intercalate_cons_of_ne_nil hne, pieces_append_slash, List.mem_append] at h
      rcases h with h | h
      · exact .inr ⟨text, List.mem_cons_self, h⟩
      · rcases ih h with hempty | ⟨text', htext', hpiece⟩
        · exact .inl hempty
        · exact .inr ⟨text', List.mem_cons_of_mem text htext', hpiece⟩

theorem mem_pieces_ofComponents {cs : List Component} {piece : String}
    (h : piece ∈ FileTree.pieces (ofComponents cs).text) :
    piece = "" ∨ ∃ c ∈ cs, piece ∈ FileTree.pieces c.text := by
  have hmap {cs : List Component}
      (h : piece ∈ FileTree.pieces ("/".intercalate (cs.map Component.text))) :
      piece = "" ∨ ∃ c ∈ cs, piece ∈ FileTree.pieces c.text := by
    refine (mem_pieces_intercalate h).imp_right ?_
    rintro ⟨_, htext, hpiece⟩
    obtain ⟨c, hc, rfl⟩ := List.mem_map.1 htext
    exact ⟨c, hc, hpiece⟩
  rw [ofComponents.eq_def] at h
  split at h
  next rest =>
    rw [← String.empty_append (s := "/"), pieces_append_slash, List.mem_append] at h
    rcases h with h | h
    · exact .inl (List.mem_singleton.1 h)
    · rcases hmap h with hempty | ⟨c, hc, hpiece⟩
      · exact .inl hempty
      · exact .inr ⟨c, List.mem_cons_of_mem _ hc, hpiece⟩
  next => exact hmap h

/-- A component of a path has no name in its text but its own. -/
theorem eq_name_of_mem_pieces {c : Component} (hc : c ∈ p.components)
    (hname : name ∈ FileTree.pieces c.text) (hstep : isStep name = true) (hup : name ≠ "..") :
    c = .name name := by
  cases c with
  | root =>
    have hpieces : FileTree.pieces Component.root.text = ["", ""] := by decide
    simp only [hpieces, List.mem_cons, List.not_mem_nil, or_false, or_self] at hname
    subst hname
    cases hstep
  | here =>
    have hpieces : FileTree.pieces Component.here.text = ["."] := by decide
    rw [hpieces, List.mem_singleton] at hname
    subst hname
    cases hstep
  | up =>
    have hpieces : FileTree.pieces Component.up.text = [".."] := by decide
    rw [hpieces, List.mem_singleton] at hname
    exact absurd hname hup
  | name s =>
    obtain ⟨hs, -, -⟩ := name_mem_components.1 hc
    obtain ⟨chars, hchars, rfl⟩ := List.mem_map.1 hs
    have hone : FileTree.pieces (String.ofList chars) = [String.ofList chars] := by
      rw [FileTree.pieces, String.toList_ofList, Text.split_eq_singleton, List.map_singleton]
      exact fun c hc => Text.not_separator_of_mem_split hchars hc
    rw [Component.text, hone, List.mem_singleton] at hname
    rw [hname]

/-- The paths above a path have no names but those of the path. -/
theorem name_mem_of_mem_selfAndAbove (hq : q ∈ p.selfAndAbove)
    (h : .name name ∈ q.components) : .name name ∈ p.components := by
  rw [selfAndAbove] at hq
  split_ifs at hq with hempty
  · cases hq
  rcases List.mem_cons.1 hq with rfl | hq
  · exact h
  obtain ⟨i, -, rfl⟩ := List.mem_map.1 hq
  obtain ⟨hpiece, hstep, hup⟩ := name_mem_components.1 h
  rcases mem_pieces_ofComponents hpiece with rfl | ⟨c, hc, hmem⟩
  · cases hstep
  have hp : c ∈ p.components := List.dropLast_subset _ (List.mem_of_mem_take hc)
  exact eq_name_of_mem_pieces hp hmem hstep hup ▸ hp

end Path

namespace FileTree

variable {t t' t'' : FileTree} {p : Path}

/-! ### One folder -/

/-- What is missing at the end of a walk has the last name of its path, as a link at the end is
not followed. -/
theorem getLast?_of_walk_missing {n : Nat} {here folder : Location} {name : String}
    {path : List String} (h : t.walk .itself n here path = .ok (.missing folder name))
    (hlast : path.getLast? ≠ some "") : path.getLast? = some name ∧ Named name := by
  have hcons {piece last : String} {rest : List String} (h : rest.getLast? = some last) :
      (piece :: rest).getLast? = some last := by
    rw [List.getLast?_cons, h, Option.getD_some]
  have hrest {piece : String} {rest : List String} (h : (piece :: rest).getLast? ≠ some "") :
      rest.getLast? ≠ some "" := mt hcons h
  fun_induction walk t .itself n here path with
  | case3 n here piece rest _ _ ih => exact (ih h (hrest hlast)).imp_left hcons
  | case4 n here rest _ _ ih => exact (ih h (hrest hlast)).imp_left hcons
  | case7 n here piece rest hf hp hup _ hsize he hall =>
    cases h
    cases hend : rest.getLast? with
    | some last =>
      have hempty : last = "" := by
        simpa using List.all_eq_true.1 hall last (List.mem_of_mem_getLast? hend)
      exact absurd (hempty ▸ hend) (hrest hlast)
    | none =>
      rw [List.getLast?_eq_none_iff.1 hend]
      exact ⟨rfl, Path.isStep_eq_true.2 hp, hup, not_lt.1 hsize⟩
  | case11 here piece rest _ _ _ _ _ target _ hstop n ih =>
    have hne : rest ≠ [] := fun hnil => hstop ⟨hnil, rfl⟩
    rw [List.getLast?_append_of_ne_nil _ hne] at ih
    exact (ih h (hrest hlast)).imp_left hcons
  | case12 here piece rest _ _ _ _ _ e n _ _ ih => exact (ih h (hrest hlast)).imp_left hcons
  | _ => cases h

theorem walk_idle {purpose : Purpose} {n : Nat} {here folder : Location} {name : String}
    {path : List String} (hp : ∀ piece ∈ path, Path.isStep piece = false) :
    t.walk purpose n here path ≠ .ok (.missing folder name) := by
  induction path with
  | nil =>
    rw [walk.eq_def]
    cases t.entry? here <;> simp
  | cons piece path ih =>
    obtain ⟨hpiece, hpath⟩ := List.forall_mem_cons.1 hp
    cases hf : t.entry? here with
    | none =>
      rw [walk.eq_def, hf]
      simp
    | some e =>
      cases e with
      | folder =>
        rw [walk_stay hf hpiece]
        exact ih hpath
      | _ =>
        rw [walk.eq_def, hf]
        simp

/-- Without the slashes at its end a path has a last piece, unless it is all slashes. -/
theorem pieces_withoutSlashes_end (p : Path) :
    (pieces (withoutSlashes p).text).getLast? ≠ some "" ∨
      ∀ piece ∈ pieces (withoutSlashes p).text, Path.isStep piece = false := by
  rw [withoutSlashes]
  cases hrest : p.text.toList.reverse.dropWhile Path.isSlash with
  | nil =>
    refine .inr fun piece hpiece => ?_
    obtain ⟨chars, hchars, rfl⟩ := List.mem_map.1 hpiece
    have hslashes : ∀ c ∈ p.text.toList, Path.isSlash c = true := by
      simpa [List.dropWhile_eq_nil_iff] using hrest
    rw [Text.split_separators hslashes chars hchars]
    rfl
  | cons c cs =>
    have hc : Path.isSlash c = false :=
      Text.not_of_mem_head?_dropWhile (hrest ▸ List.head?_cons : c ∈ _)
    obtain ⟨last, hlast, hmem⟩ :=
      Text.getLast?_split hc (by simp : (c :: cs).reverse.getLast? = some c)
    refine .inl ?_
    rw [pieces, List.getLast?_map, String.toList_ofList, hlast, Option.map_some, ne_eq,
      Option.some.injEq]
    intro hempty
    rw [String.ofList_eq_empty_iff.1 hempty] at hmem
    cases hmem

/-- Folders are added, each under a name of its own in a path, and nothing is changed. -/
structure AddsNamed (p : Path) (t t' : FileTree) : Prop where
  kept {loc : Location} {e : Entry} (h : t.entry? loc = some e) : t'.entry? loc = some e
  new {loc : Location} {e : Entry} (h : t.entry? loc = none) (he : t'.entry? loc = some e) :
    e = .folder ∧ ∃ name, loc.getLast? = some name ∧ .name name ∈ p.components

theorem AddsNamed.refl (p : Path) (t : FileTree) : AddsNamed p t t :=
  ⟨id, fun h he => by cases h.symm.trans he⟩

theorem AddsNamed.trans (h : AddsNamed p t t') (h' : AddsNamed p t' t'') : AddsNamed p t t'' := by
  refine ⟨fun he => h'.kept (h.kept he), fun {loc e} hnone he => ?_⟩
  cases hmid : t'.entry? loc with
  | none => exact h'.new hmid he
  | some mid =>
    cases (h'.kept hmid).symm.trans he
    exact h.new hnone hmid

theorem createFolder_named (h : (createFolder p).run t = .ok () t') : AddsNamed p t t' := by
  rw [createFolder_eq] at h
  cases hl : t.lookup .itself (withoutSlashes p) with
  | error e =>
    rw [hl] at h
    cases h
  | ok found =>
    rw [hl] at h
    cases found with
    | found loc e => cases h
    | missing folder name =>
      cases h
      obtain ⟨hsought, hwalk⟩ := lookup_eq_ok.1 hl
      have hnone := walk_missing hwalk
      have hput := entry?_put (t := t) (ne_nil_of_entry?_none hnone) .folder
      refine ⟨fun {loc e} he => ?_, fun {loc e} hloc he => ?_⟩
      · rw [hput, if_neg, he]
        rintro rfl
        cases hnone.symm.trans he
      · rw [hput] at he
        split_ifs at he with hplace
        · obtain ⟨hname, hnamed⟩ := getLast?_of_walk_missing hwalk
            ((pieces_withoutSlashes_end p).resolve_right fun hidle => walk_idle hidle hwalk)
          have hp : p.text ≠ "" :=
            fun hempty => hsought.ne_empty (by simp [withoutSlashes, hempty])
          obtain ⟨idle, -, hpieces⟩ := pieces_withoutSlashes hp
          refine ⟨(Option.some.inj he).symm, name, by rw [hplace, List.getLast?_concat],
            Path.name_mem_components.2 ⟨?_, ?_⟩⟩
          · rw [hpieces]
            exact List.mem_append_left _ (List.mem_of_mem_getLast? hname)
          · exact ⟨hnamed.isStep, hnamed.ne_up⟩
        · cases hloc.symm.trans he

/-! ### Folders above a path -/

theorem createFolders_named (p : Path) (t : FileTree) : ∃ t', AddsNamed p t t' ∧
    ((createFolders p).run t = .ok () t' ∨ ∃ e, (createFolders p).run t = .error e t') := by
  refine createFirst_cases (AddsNamed.refl p) AddsNamed.trans (fun q hq t t' h => ?_) t
  have hnamed := createFolder_named h
  refine ⟨hnamed.kept, fun hnone he => ?_⟩
  obtain ⟨hfolder, name, hname, hmem⟩ := hnamed.new hnone he
  exact ⟨hfolder, name, hname, Path.name_mem_of_mem_selfAndAbove hq hmem⟩

end FileTree

end EndpointCatalog
