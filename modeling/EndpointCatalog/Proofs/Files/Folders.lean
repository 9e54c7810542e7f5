import EndpointCatalog.Proofs.Files.Changes
import Mathlib.Data.List.TakeWhile

/-! Creating folders. Whatever happens on the way, folders are all that is added; and where the
folder is there already, nothing happens at all. -/

namespace EndpointCatalog

/-! ### Slashes at the end -/

theorem Text.split_separators {isSeparator : Char → Bool} {cs : List Char}
    (h : ∀ c ∈ cs, isSeparator c = true) : ∀ piece ∈ split isSeparator cs, piece = [] := by
  induction cs with
  | nil => exact fun piece hp => List.mem_singleton.1 hp
  | cons c cs ih =>
    obtain ⟨hc, hcs⟩ := List.forall_mem_cons.1 h
    rw [split, if_pos hc]
    exact List.forall_mem_cons.2 ⟨rfl, ih hcs⟩

namespace FileTree

variable {t t' : FileTree} {p : Path}

theorem withoutSlashes_text (h : p.text ≠ "") : ∃ slashes : String,
    (∀ c ∈ slashes.toList, Path.isSlash c = true) ∧
      p.text = (withoutSlashes p).text ++ slashes ∧ (withoutSlashes p).text ≠ "" := by
  have hcut := List.takeWhile_append_dropWhile (p := Path.isSlash) (l := p.text.toList.reverse)
  rw [withoutSlashes]
  cases hrest : p.text.toList.reverse.dropWhile Path.isSlash with
  | nil => exact ⟨"", by simp, by simp, h⟩
  | cons c cs =>
    rw [hrest] at hcut
    refine ⟨String.ofList (p.text.toList.reverse.takeWhile Path.isSlash).reverse, ?_, ?_, ?_⟩
    · intro d hd
      rw [String.toList_ofList, List.mem_reverse] at hd
      exact List.mem_takeWhile_imp hd
    · rw [← String.toList_inj, String.toList_append, String.toList_ofList, String.toList_ofList,
        ← List.reverse_append, hcut, List.reverse_reverse]
    · intro hempty
      have hnil := congrArg String.toList hempty
      rw [String.toList_ofList] at hnil
      simp at hnil

/-- Without the slashes at its end a path has the same pieces but for those that lead nowhere. -/
theorem pieces_withoutSlashes (h : p.text ≠ "") : ∃ idle : List String,
    (∀ piece ∈ idle, Path.isStep piece = false) ∧
      pieces p.text = pieces (withoutSlashes p).text ++ idle := by
  obtain ⟨slashes, hslashes, htext, _⟩ := withoutSlashes_text h
  cases hs : slashes.toList with
  | nil =>
    rw [htext, String.toList_eq_nil_iff.1 hs, String.append_empty]
    exact ⟨[], nofun, (List.append_nil _).symm⟩
  | cons c cs =>
    rw [hs] at hslashes
    obtain ⟨hc, hcs⟩ := List.forall_mem_cons.1 hslashes
    refine ⟨(Text.split Path.isSlash cs).map String.ofList, ?_, ?_⟩
    · intro piece hpiece
      obtain ⟨chars, hchars, rfl⟩ := List.mem_map.1 hpiece
      rw [Text.split_separators hcs chars hchars]
      rfl
    · conv_lhs => rw [htext]
      rw [pieces, String.toList_append, hs, Text.split_append_separator _ hc, List.map_append]
      rfl

theorem isAbsolute_withoutSlashes (h : p.text ≠ "") :
    (withoutSlashes p).isAbsolute = p.isAbsolute := by
  obtain ⟨slashes, _, htext, hne⟩ := withoutSlashes_text h
  rw [Path.isAbsolute, Path.isAbsolute]
  conv_rhs => rw [htext]
  rw [String.toList_append, List.head?_append_of_ne_nil _ (mt String.toList_eq_nil_iff.1 hne)]

theorem Sought.withoutSlashes (h : Sought p) : Sought (withoutSlashes p) := by
  obtain ⟨slashes, _, htext, hne⟩ := withoutSlashes_text h.ne_empty
  refine ⟨hne, fun hnul => h.no_nul ?_, lt_of_le_of_lt ?_ h.short⟩
  · rw [htext, String.toList_append]
    exact List.mem_append_left _ hnul
  · conv_rhs => rw [htext]
    rw [String.utf8ByteSize_append]
    exact Nat.le_add_right _ _

theorem Leads.of_all_idle {n m : Nat} {here loc : Location} {path : List String}
    (h : t.Leads n here path m loc) (hp : ∀ piece ∈ path, Path.isStep piece = false) :
    n = m ∧ here = loc := by
  induction path generalizing n here with
  | nil =>
    cases h
    exact ⟨rfl, rfl⟩
  | cons piece path ih =>
    obtain ⟨hpiece, hpath⟩ := List.forall_mem_cons.1 hp
    rw [← List.singleton_append] at h
    obtain ⟨k, mid, hfirst, hrest⟩ := h.split
    obtain ⟨rfl, rfl⟩ := hfirst.of_idle hpiece
    exact ih hrest hpath

/-! ### Folders that are there -/

theorem createFolder_eq (p : Path) (t : FileTree) :
    (createFolder p).run t = match t.lookup .itself (withoutSlashes p) with
      | .ok (.found ..) => .error .fileExists t
      | .ok (.missing folder name) => .ok () (t.put (folder ++ [name]) .folder)
      | .error e => .error e t := by
  simp only [createFolder, EStateM.run_bind, EStateM.run_get]
  cases t.lookup .itself (withoutSlashes p) with
  | error e => rfl
  | ok found => cases found <;> rfl

theorem createFolder_of_folder {top : Location} (h : t.folder? p = some top) :
    (createFolder p).run t = .error .fileExists t := by
  obtain ⟨hsought, ⟨m, hl⟩, htop⟩ := resolve_eq_ok_iff.1 (folder?_eq_some.1 h)
  obtain ⟨idle, hidle, hpieces⟩ := pieces_withoutSlashes hsought.ne_empty
  rw [hpieces] at hl
  obtain ⟨k, mid, hfront, hrest⟩ := hl.split
  obtain ⟨rfl, rfl⟩ := hrest.of_all_idle hidle
  rw [start, ← isAbsolute_withoutSlashes hsought.ne_empty, ← start] at hfront
  obtain ⟨place, entry, hfound⟩ := walk_itself (walk_eq_found_iff.2 ⟨⟨k, hfront⟩, htop⟩)
  rw [createFolder_eq, lookup_eq_ok.2 ⟨hsought.withoutSlashes, hfound⟩]

theorem utf8ByteSize_join {piece : String} (h : Path.Joinable piece) :
    p.text.utf8ByteSize ≤ (p.join piece).text.utf8ByteSize := by
  rw [Path.join, h.not_isAbsolute]
  cases p.text.toList.getLast?.all Path.isSlash with
  | true =>
    rw [String.utf8ByteSize_append]
    exact Nat.le_add_right _ _
  | false =>
    rw [String.utf8ByteSize_append, String.utf8ByteSize_append, Nat.add_assoc]
    exact Nat.le_add_right _ _

/-- What stands in a folder tells that the folder is there. -/
theorem folder?_of_join {piece : String} {loc : Location} {e : Entry} (hpiece : Path.Joinable piece)
    (hp : p.text ≠ "") (hname : Named piece) (h : t.resolve (p.join piece) = .ok (loc, e)) :
    ∃ top, t.folder? p = some top := by
  obtain ⟨hsought, ⟨m, hl⟩, _⟩ := resolve_eq_ok_iff.1 h
  obtain ⟨front, hfront, hjoin⟩ := Path.pieces_join hpiece hp
  rw [hjoin, start, Path.isAbsolute_join hpiece hp, ← start] at hl
  obtain ⟨k, top, hfirst, hlast⟩ := hl.split
  have htop : t.entry? top = some .folder := by
    cases hlast with
    | stay hf => exact hf
    | up hf => exact hf
    | follow hf => exact hf
    | down hf => exact hf
  have hend : t.walk .target k top [] = .ok (.found top .folder) := by rw [walk.eq_def, htop]
  have hwalk : t.walk .target maxLinks (start t.workDir p) (pieces p.text) =
      .ok (.found top .folder) := by
    rcases hfront with hfront | hfront
    · rw [hfront, ← List.append_nil front, hfirst.walk_append (.inl rfl), hend]
    · rw [hfront, hfirst.walk_append (.inl rfl), walk_stay htop rfl, hend]
  refine ⟨top, folder?_eq_some.2 (resolve_eq_ok.2 (lookup_eq_ok.2 ⟨⟨hp, ?_, ?_⟩, hwalk⟩))⟩
  · have hpieces : ∀ q ∈ [piece], Path.Joinable q := by simpa using hpiece
    exact fun hnul => hsought.no_nul ((Path.mem_text_below hp hpieces rfl).2 (.inl hnul))
  · exact lt_of_le_of_lt (utf8ByteSize_join hpiece) hsought.short

/-! ### A folder and those above it -/

/-- What becomes of a folder that could not be created. -/
def settle (p : Path) (e : IoError) (t : FileTree) : EStateM.Result IoError FileTree Unit :=
  if (t.folder? p).isSome then .ok () t else .error e t

theorem createFirst_cons (p : Path) (above : List Path) (t : FileTree) :
    (createFirst (p :: above)).run t = match (createFolder p).run t with
      | .ok _ t => .ok () t
      | .error .notFound _ => match (createFirst above).run t with
        | .ok _ t => match (createFolder p).run t with
          | .ok _ t => .ok () t
          | .error e _ => settle p e t
        | .error e t => .error e t
      | .error e _ => settle p e t := by
  have hsettle (e : IoError) (t : FileTree) : EStateM.run (do
      if ((← get).folder? p).isSome then pure () else throw e) t = settle p e t := by
    simp only [EStateM.run_bind, EStateM.run_get, settle]
    split <;> rfl
  rw [createFirst]
  simp only [EStateM.run_bind, EStateM.run_get]
  cases (createFolder p).run t with
  | ok _ t => rfl
  | error e failed =>
    cases e with
    | notFound =>
      simp only [EStateM.run_bind]
      cases (createFirst above).run t with
      | error e t => rfl
      | ok _ t =>
        simp only [EStateM.run_get]
        cases (createFolder p).run t with
        | ok _ t => rfl
        | error e failed => exact hsettle e t
    | _ => exact hsettle _ t

theorem createFolder_run (p : Path) (t : FileTree) :
    (∃ e, (createFolder p).run t = .error e t) ∨
      ∃ t', (createFolder p).run t = .ok () t' := by
  rw [createFolder_eq]
  cases hl : t.lookup .itself (withoutSlashes p) with
  | error e => exact .inl ⟨e, rfl⟩
  | ok found =>
    cases found with
    | found loc e => exact .inl ⟨_, rfl⟩
    | missing folder name =>
      exact .inr ⟨_, rfl⟩

theorem settle_cases (p : Path) (e : IoError) (t : FileTree) :
    settle p e t = .ok () t ∨ settle p e t = .error e t := by
  rw [settle]
  split
  · exact .inl rfl
  · exact .inr rfl

/-- What relates a tree to the ones with a new folder also relates it to the one in which as
many folders as possible have been created. -/
theorem createFirst_cases {R : FileTree → FileTree → Prop} (hrefl : ∀ t, R t t)
    (htrans : ∀ {t t' t''}, R t t' → R t' t'' → R t t'') {ps : List Path}
    (hstep : ∀ p ∈ ps, ∀ t t', (createFolder p).run t = .ok () t' → R t t') (t : FileTree) :
    ∃ t', R t t' ∧
      ((createFirst ps).run t = .ok () t' ∨ ∃ e, (createFirst ps).run t = .error e t') := by
  induction ps generalizing t with
  | nil => exact ⟨t, hrefl t, .inl rfl⟩
  | cons p above ih =>
    obtain ⟨hp, habove⟩ := List.forall_mem_cons.1 hstep
    have hsettle (e : IoError) {t₁ : FileTree} (h : R t t₁) : ∃ t', R t t' ∧
        (settle p e t₁ = .ok () t' ∨ ∃ e', settle p e t₁ = .error e' t') :=
      ⟨t₁, h, (settle_cases p e t₁).imp_right fun h => ⟨e, h⟩⟩
    rw [createFirst_cons]
    rcases createFolder_run p t with ⟨e, hfirst⟩ | ⟨t', hfirst⟩
    · rw [hfirst]
      cases e with
      | notFound =>
        obtain ⟨t₁, hadds, hrest | ⟨e, hrest⟩⟩ := ih habove t
        · simp only [hrest]
          rcases createFolder_run p t₁ with ⟨e, hagain⟩ | ⟨t', hagain⟩
          · rw [hagain]
            exact hsettle e hadds
          · rw [hagain]
            exact ⟨t', htrans hadds (hp t₁ t' hagain), .inl rfl⟩
        · simp only [hrest]
          exact ⟨t₁, hadds, .inr ⟨e, rfl⟩⟩
      | _ => exact hsettle _ (hrefl t)
    · rw [hfirst]
      exact ⟨t', hp t t' hfirst, .inl rfl⟩

theorem createFolders_of_folder {top : Location} (h : t.folder? p = some top) :
    (createFolders p).run t = .ok () t := by
  rw [createFolders, Path.selfAndAbove, if_neg (text_ne_empty_of_folder? h), createFirst_cons,
    createFolder_of_folder h]
  change settle p .fileExists t = .ok () t
  rw [settle, h]
  rfl

theorem createFolders_of_join {piece : String} {loc : Location} {e : Entry}
    (hpiece : Path.Joinable piece) (hname : Named piece)
    (h : t.resolve (p.join piece) = .ok (loc, e)) : (createFolders p).run t = .ok () t := by
  rcases eq_or_ne p.text "" with hp | hp
  · rw [createFolders, Path.selfAndAbove, if_pos hp]
    rfl
  · obtain ⟨top, htop⟩ := folder?_of_join hpiece hp hname h
    exact createFolders_of_folder htop

end FileTree

end EndpointCatalog
