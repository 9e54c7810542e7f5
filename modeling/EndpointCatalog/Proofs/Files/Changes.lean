import EndpointCatalog.Files.Change
import EndpointCatalog.Proofs.Files.Below
import EndpointCatalog.Proofs.Store.Lawful

/-! Changes of a tree of files. What a path leads to depends on the folders and the links it
passes. Where these stay, as they do when a file is written or removed, the path leads on to
where it led. -/

namespace EndpointCatalog.FileTree

variable {t t' : FileTree}

/-! ### One location -/

theorem ne_nil_of_entry?_none {loc : Location} (h : t.entry? loc = none) : loc ≠ [] := by
  rintro rfl
  cases h

theorem ne_nil_of_entry?_file {loc : Location} {content : Text.Utf8.Bytes}
    (h : t.entry? loc = some (.file content)) : loc ≠ [] := by
  rintro rfl
  cases h

/-- Where a file could be put. -/
theorem ne_nil_of_free {loc : Location}
    (h : t.entry? loc = none ∨ ∃ content, t.entry? loc = some (.file content)) : loc ≠ [] := by
  rcases h with hnone | ⟨content, hfile⟩
  · exact ne_nil_of_entry?_none hnone
  · exact ne_nil_of_entry?_file hfile

theorem lookup_filter (keep : Location → Bool) (entries : List (Location × Entry))
    (loc : Location) : (entries.filter fun entry => keep entry.1).lookup loc =
      if keep loc = true then entries.lookup loc else none := by
  induction entries with
  | nil => simp
  | cons entry entries ih =>
    obtain ⟨place, e⟩ := entry
    by_cases hplace : keep place = true
    · rw [List.filter_cons_of_pos (by exact hplace), List.lookup_cons, List.lookup_cons, ih]
      rcases eq_or_ne loc place with rfl | hne
      · simp [hplace]
      · rw [beq_false_of_ne hne]
    · rw [List.filter_cons_of_neg (by exact hplace), ih, List.lookup_cons]
      split_ifs with hloc
      · have hne : loc ≠ place := fun heq => hplace (heq ▸ hloc)
        rw [beq_false_of_ne hne]
      · rfl

theorem entry?_erase {loc : Location} (h : loc ≠ []) (other : Location) :
    entry? (t.erase loc) other = if other = loc then none else t.entry? other := by
  unfold entry?
  rcases eq_or_ne other [] with rfl | hroot
  · rw [if_pos rfl, if_neg (Ne.symm h), if_pos rfl]
  · rw [if_neg hroot, if_neg hroot, erase, lookup_filter fun place => decide (place ≠ loc)]
    simp [ite_not]

theorem entry?_put {loc : Location} (h : loc ≠ []) (e : Entry) (other : Location) :
    entry? (t.put loc e) other = if other = loc then some e else t.entry? other := by
  unfold entry?
  rcases eq_or_ne other [] with rfl | hroot
  · rw [if_pos rfl, if_neg (Ne.symm h), if_pos rfl]
  · rw [if_neg hroot, if_neg hroot, put, List.lookup_cons,
      lookup_filter fun place => decide (place ≠ loc)]
    rcases eq_or_ne other loc with rfl | hother
    · rw [beq_self_eq_true, if_pos rfl]
    · rw [beq_false_of_ne hother, if_neg hother, if_pos (decide_eq_true hother)]

/-! ### Folders and links -/

/-- All folders and links stay. -/
structure Stays (t t' : FileTree) : Prop where
  workDir_eq : t'.workDir = t.workDir
  folder {loc : Location} (h : t.entry? loc = some .folder) : t'.entry? loc = some .folder
  link {loc : Location} {target : String} (h : t.entry? loc = some (.link target)) :
    t'.entry? loc = some (.link target)

instance : IsPreorder FileTree Stays where
  refl _ := ⟨rfl, id, id⟩
  trans _ _ _ h h' := ⟨h'.workDir_eq.trans h.workDir_eq, fun hf => h'.folder (h.folder hf),
    fun hl => h'.link (h.link hl)⟩

/-- Folders and links stay if nothing differs but what is free for a file. -/
theorem stays_of_free {loc : Location} (hworkDir : t'.workDir = t.workDir)
    (hfree : t.entry? loc = none ∨ ∃ old, t.entry? loc = some (.file old))
    (heq : ∀ other, other ≠ loc → t'.entry? other = t.entry? other) : Stays t t' := by
  have hkept {other : Location} {e : Entry} (he : t.entry? other = some e)
      (hfile : ∀ content, e ≠ .file content) : t'.entry? other = some e := by
    refine (heq other ?_).trans he
    rintro rfl
    rcases hfree with hnone | ⟨old, hold⟩
    · cases hnone.symm.trans he
    · exact hfile old (Option.some.inj (he.symm.trans hold))
  exact ⟨hworkDir, fun hf => hkept hf nofun, fun hl => hkept hl nofun⟩

theorem stays_put {loc : Location} {content : Text.Utf8.Bytes}
    (h : t.entry? loc = none ∨ ∃ old, t.entry? loc = some (.file old)) :
    Stays t (t.put loc (.file content)) :=
  stays_of_free rfl h fun other hother => by rw [entry?_put (ne_nil_of_free h), if_neg hother]

theorem stays_erase {loc : Location} {content : Text.Utf8.Bytes}
    (h : t.entry? loc = some (.file content)) : Stays t (t.erase loc) :=
  stays_of_free rfl (.inr ⟨content, h⟩) fun other hother => by
    rw [entry?_erase (ne_nil_of_entry?_file h), if_neg hother]

/-- Only folders and links are passed on the way to what a path leads to. -/
theorem Stays.leads (h : Stays t t') {n m : Nat} {here loc : Location} {path : List String}
    (hl : t.Leads n here path m loc)
    (hend : ∃ e, t'.entry? loc = some e ∧ ∀ target, e ≠ .link target) :
    t'.Leads n here path m loc := by
  induction hl with
  | done => exact .done
  | stay hf hp _ ih => exact .stay (h.folder hf) hp (ih hend)
  | up hf _ ih => exact .up (h.folder hf) (ih hend)
  | follow hf hp he _ ih => exact .follow (h.folder hf) hp (h.link he) (ih hend)
  | @down n m here loc piece rest e hf hp he hlink hrest ih =>
    cases e with
    | folder => exact .down (h.folder hf) hp (h.folder he) nofun (ih hend)
    | link target => exact absurd rfl (hlink target)
    | file content =>
      obtain ⟨rfl, rfl⟩ := hrest.of_file he
      obtain ⟨e', he', hlink'⟩ := hend
      exact .down (h.folder hf) hp he' hlink' (ih ⟨e', he', hlink'⟩)

/-! ### Looking up -/

/-- A path that is looked up at all. -/
structure Sought (p : Path) : Prop where
  ne_empty : p.text ≠ ""
  no_nul : '\x00' ∉ p.text.toList
  short : p.text.utf8ByteSize < maxPathSize

theorem lookup_eq_ok {purpose : Purpose} {p : Path} {found : Lookup} :
    t.lookup purpose p = .ok found ↔ Sought p ∧
      t.walk purpose maxLinks (start t.workDir p) (pieces p.text) = .ok found := by
  rw [lookup]
  split_ifs with hempty hnul hlong
  · exact iff_of_false (by simp) fun h => h.1.ne_empty hempty
  · exact iff_of_false (by simp) fun h => h.1.no_nul hnul
  · exact iff_of_false (by simp) fun h => absurd h.1.short (not_lt.2 hlong)
  · exact ⟨fun h => ⟨⟨hempty, hnul, not_le.1 hlong⟩, h⟩, fun h => h.2⟩

theorem resolve_eq_ok_iff {p : Path} {loc : Location} {e : Entry} :
    t.resolve p = .ok (loc, e) ↔ Sought p ∧
      (∃ m, t.Leads maxLinks (start t.workDir p) (pieces p.text) m loc) ∧
        t.entry? loc = some e := by
  rw [resolve_eq_ok, lookup_eq_ok, walk_eq_found_iff]

theorem isPresent_iff {p : Path} : t.isPresent p = true ↔ ∃ loc e, t.resolve p = .ok (loc, e) := by
  rw [isPresent]
  cases t.resolve p with
  | error e => simp [Except.isOk, Except.toBool]
  | ok x => exact iff_of_true rfl ⟨x.1, x.2, rfl⟩

theorem walk_missing {purpose : Purpose} {n : Nat} {here folder : Location} {name : String}
    {path : List String} (h : t.walk purpose n here path = .ok (.missing folder name)) :
    t.entry? (folder ++ [name]) = none := by
  fun_induction walk t purpose n here path with
  | case3 n here piece rest _ _ ih => exact ih h
  | case4 n here rest _ _ ih => exact ih h
  | case7 n here piece rest _ _ _ _ _ he _ =>
    cases h
    exact he
  | case11 here piece rest _ _ _ _ _ target _ _ n ih => exact ih h
  | case12 here piece rest _ _ _ _ _ e n _ _ ih => exact ih h
  | _ => cases h

/-- A file that can be written is found where it is read. -/
theorem walk_writing {n : Nat} {here : Location} {path : List String} {found : Lookup}
    (h : t.walk .writing n here path = .ok found) : t.walk .target n here path = .ok found := by
  fun_induction walk t .writing n here path with
  | case2 n here e he =>
    rw [walk.eq_def, he]
    exact h
  | case3 n here piece rest hf hp ih =>
    rw [walk_stay hf (Path.isStep_eq_false.2 hp)]
    exact ih h
  | case4 n here rest hf _ ih =>
    rw [walk_up hf]
    exact ih h
  | case7 n here piece rest hf hp hup _ hsize he hall =>
    rw [walk_named hf (Path.isStep_eq_true.2 hp) hup (.inl rfl), if_neg hsize, he]
    exact (if_pos hall).trans h
  | case11 here piece rest hf hp hup _ hsize target he _ n ih =>
    rw [walk_named hf (Path.isStep_eq_true.2 hp) hup (.inl rfl), if_neg hsize, he]
    exact ih h
  | case12 here piece rest hf hp hup _ hsize e n hlink he ih =>
    rw [walk_named hf (Path.isStep_eq_true.2 hp) hup (.inl rfl), if_neg hsize, he]
    cases e with
    | link target => exact absurd rfl (hlink target)
    | file content => exact ih h
    | folder => exact ih h
  | case9 _ _ _ _ _ _ _ _ _ _ _ hpurpose => cases hpurpose.2
  | _ => cases h

/-- Where a path leads to something, a link or something else stands at its end. -/
theorem walk_itself {n : Nat} {here loc : Location} {path : List String} {e : Entry}
    (h : t.walk .target n here path = .ok (.found loc e)) :
    ∃ place entry, t.walk .itself n here path = .ok (.found place entry) := by
  fun_induction walk t .target n here path with
  | case2 n here e he => exact ⟨here, e, by rw [walk.eq_def, he]⟩
  | case3 n here piece rest hf hp ih =>
    obtain ⟨place, entry, hfound⟩ := ih h
    exact ⟨place, entry, (walk_stay hf (Path.isStep_eq_false.2 hp)).trans hfound⟩
  | case4 n here rest hf _ ih =>
    obtain ⟨place, entry, hfound⟩ := ih h
    exact ⟨place, entry, (walk_up hf).trans hfound⟩
  | case11 here piece rest hf hp hup _ hsize target he _ n ih =>
    rcases eq_or_ne rest [] with rfl | hrest
    · refine ⟨here ++ [piece], .link target, ?_⟩
      rw [walk.eq_def]
      simp [hf, hp, hup, hsize, he]
    · obtain ⟨place, entry, hfound⟩ := ih h
      refine ⟨place, entry, ?_⟩
      rw [walk.eq_def]
      simpa [hf, hp, hup, hsize, he, hrest] using hfound
  | case12 here piece rest hf hp hup _ hsize e n hlink he ih =>
    obtain ⟨place, entry, hfound⟩ := ih h
    refine ⟨place, entry, ?_⟩
    rw [walk.eq_def]
    cases e with
    | link target => exact absurd rfl (hlink target)
    | file content => simpa [hf, hp, hup, hsize, he] using hfound
    | folder => simpa [hf, hp, hup, hsize, he] using hfound
  | case9 _ _ _ _ _ _ _ _ _ _ _ hpurpose => cases hpurpose.2
  | _ => cases h

theorem Stays.resolve (h : Stays t t') {p : Path} {loc : Location} {e e' : Entry}
    (hp : t.resolve p = .ok (loc, e))
    (he : t'.entry? loc = some e') (hlink : ∀ target, e' ≠ .link target) :
    t'.resolve p = .ok (loc, e') := by
  obtain ⟨hsought, ⟨m, hl⟩, _⟩ := resolve_eq_ok_iff.1 hp
  rw [start, ← h.workDir_eq, ← start] at hl
  exact resolve_eq_ok_iff.2 ⟨hsought, ⟨m, h.leads hl ⟨e', he, hlink⟩⟩, he⟩

/-! ### Writing -/

/-- The location of the file that writing to a path creates or replaces. -/
def target? (t : FileTree) (p : Path) : Option Location :=
  match t.lookup .writing p with
  | .ok (.found loc (.file _)) => some loc
  | .ok (.missing folder name) => some (folder ++ [name])
  | _ => none

theorem target?_cases {p : Path} {place : Location} (h : t.target? p = some place) :
    (∃ old, t.resolve p = .ok (place, .file old)) ∨
      t.isPresent p = false ∧ t.entry? place = none := by
  rw [target?] at h
  split at h
  next loc old hl =>
    cases h
    obtain ⟨hsought, hwalk⟩ := lookup_eq_ok.1 hl
    exact .inl ⟨old, resolve_eq_ok.2 (lookup_eq_ok.2 ⟨hsought, walk_writing hwalk⟩)⟩
  next folder name hl =>
    cases h
    obtain ⟨hsought, hwalk⟩ := lookup_eq_ok.1 hl
    have htarget := lookup_eq_ok.2 ⟨hsought, walk_writing hwalk⟩
    refine .inr ⟨?_, walk_missing hwalk⟩
    rw [isPresent, resolve, htarget]
    rfl
  next => cases h

/-- Where a path to be written ends there is nothing yet, or a file. -/
theorem entry?_target {p : Path} {place : Location} (h : t.target? p = some place) :
    t.entry? place = none ∨ ∃ old, t.entry? place = some (.file old) := by
  rcases target?_cases h with ⟨old, hold⟩ | ⟨-, hnone⟩
  · exact .inr ⟨old, (resolve_eq_ok_iff.1 hold).2.2⟩
  · exact .inl hnone

theorem write_eq (p : Path) (content : Text.Utf8.Bytes) (t : FileTree) :
    (write p content).run t = match t.lookup .writing p with
      | .ok (.found loc (.file _)) => .ok () (t.put loc (.file content))
      | .ok (.found ..) => .error .isDirectory t
      | .ok (.missing folder name) => .ok () (t.put (folder ++ [name]) (.file content))
      | .error e => .error e t := by
  simp only [write, EStateM.run_bind, EStateM.run_get]
  cases t.lookup .writing p with
  | error e => rfl
  | ok found =>
    cases found with
    | found loc e => cases e <;> rfl
    | missing folder name => rfl

theorem write_run (p : Path) (content : Text.Utf8.Bytes) (t : FileTree) :
    (∃ e, (write p content).run t = .error e t) ∨ ∃ place, t.target? p = some place ∧
      (write p content).run t = .ok () (t.put place (.file content)) := by
  rw [write_eq, target?]
  cases t.lookup .writing p with
  | error e => exact .inl ⟨e, rfl⟩
  | ok found =>
    cases found with
    | found loc e =>
      cases e with
      | file old => exact .inr ⟨loc, rfl, rfl⟩
      | folder => exact .inl ⟨_, rfl⟩
      | link target => exact .inl ⟨_, rfl⟩
    | missing folder name => exact .inr ⟨_, rfl, rfl⟩

/-- Once there is a file where a path to be written ended, the path leads to it. -/
theorem Stays.leads_filled (hstays : Stays t t') {n : Nat} {here folder : Location}
    {name : String} {path : List String} {content : Text.Utf8.Bytes}
    (h : t.walk .writing n here path = .ok (.missing folder name))
    (hfile : t'.entry? (folder ++ [name]) = some (.file content)) :
    ∃ m, t'.Leads n here path m (folder ++ [name]) := by
  fun_induction walk t .writing n here path with
  | case3 n here piece rest hf hp ih =>
    obtain ⟨m, hl⟩ := ih h
    exact ⟨m, .stay (hstays.folder hf) (Path.isStep_eq_false.2 hp) hl⟩
  | case4 n here rest hf _ ih =>
    obtain ⟨m, hl⟩ := ih h
    exact ⟨m, .up (hstays.folder hf) hl⟩
  | case7 n here piece rest hf hp hup hslash hsize he hall =>
    cases h
    -- A path with a slash at its end would not have been written.
    have hlast : rest = [] := by simpa [hall] using hslash
    subst hlast
    exact ⟨n, .down (hstays.folder hf)
      ⟨Path.isStep_eq_true.2 hp, hup, not_lt.1 hsize⟩ hfile (by simp) .done⟩
  | case11 here piece rest hf hp hup _ hsize target he _ n ih =>
    obtain ⟨m, hl⟩ := ih h
    exact ⟨m, .follow (hstays.folder hf)
      ⟨Path.isStep_eq_true.2 hp, hup, not_lt.1 hsize⟩
      (hstays.link he) hl⟩
  | case12 here piece rest hf hp hup _ hsize e n hlink he ih =>
    obtain ⟨m, hl⟩ := ih h
    cases e with
    | folder =>
      exact ⟨m, .down (hstays.folder hf) ⟨Path.isStep_eq_true.2 hp, hup, not_lt.1 hsize⟩
        (hstays.folder he) (by simp) hl⟩
    | link target => exact absurd rfl (hlink target)
    | file old =>
      rw [walk.eq_def, he] at h
      cases rest <;> cases h
  | _ => cases h

/-- A path at which a file can be written: one is there, or it would be the first one in a
folder that is. -/
inductive Writable (t : FileTree) (p : Path) : Prop
  | file {loc : Location} {content : Text.Utf8.Bytes}
      (h : t.lookup .writing p = .ok (.found loc (.file content)))
  | missing {folder : Location} {name : String}
      (h : t.lookup .writing p = .ok (.missing folder name))

/-- A path to be written leads to a file once there is one where it ends. -/
theorem Stays.resolve_target (hstays : Stays t t') {p : Path} {place : Location}
    {content : Text.Utf8.Bytes} (h : t.target? p = some place)
    (hfile : t'.entry? place = some (.file content)) :
    t'.resolve p = .ok (place, .file content) := by
  rw [target?] at h
  split at h
  next loc old hl =>
    cases h
    obtain ⟨hsought, hwalk⟩ := lookup_eq_ok.1 hl
    have hold := resolve_eq_ok.2 (lookup_eq_ok.2 ⟨hsought, walk_writing hwalk⟩)
    exact hstays.resolve hold hfile nofun
  next folder name hl =>
    cases h
    obtain ⟨hsought, hwalk⟩ := lookup_eq_ok.1 hl
    rw [start, ← hstays.workDir_eq, ← start] at hwalk
    exact resolve_eq_ok_iff.2 ⟨hsought, hstays.leads_filled hwalk hfile, hfile⟩
  next => cases h

theorem resolve_of_write {p : Path} {content : Text.Utf8.Bytes}
    (h : (write p content).run t = .ok () t') : ∃ loc, t'.resolve p = .ok (loc, .file content) := by
  rcases write_run p content t with ⟨e, herror⟩ | ⟨place, hplace, hok⟩
  · cases h.symm.trans herror
  · cases h.symm.trans hok
    have hentry := entry?_target hplace
    refine ⟨place, (stays_put hentry).resolve_target hplace ?_⟩
    rw [entry?_put (ne_nil_of_free hentry), if_pos rfl]

/-- Whether a file can be written does not depend on its content. -/
theorem write_ok_iff {p : Path} (content : Text.Utf8.Bytes) :
    (∃ t', (write p content).run t = .ok () t') ↔ t.Writable p := by
  rw [write_eq]
  constructor
  · rintro ⟨t', h⟩
    cases hl : t.lookup .writing p with
    | error e => rw [hl] at h; cases h
    | ok found =>
      rw [hl] at h
      cases found with
      | missing folder name => exact .missing hl
      | found loc e =>
        cases e with
        | file content => exact .file hl
        | folder => cases h
        | link target => cases h
  · rintro (h | h) <;> exact ⟨_, by rw [h]⟩

end EndpointCatalog.FileTree
