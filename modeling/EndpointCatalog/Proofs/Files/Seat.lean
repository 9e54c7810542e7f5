import EndpointCatalog.Proofs.Files.Folders
import EndpointCatalog.Proofs.Files.Touched

/-! Names below a path. A name that is joined to a path is looked up in the folder that the
path leads to: what stands there under the name is found, and if nothing does, the name is
missing. Without such a folder no name below the path is found at all. -/

namespace EndpointCatalog

/-! ### Pieces in front of a name -/

namespace Path

variable {p : Path} {name : String}

/-- The pieces that stand in front of a name that is joined to a path. -/
def ahead (p : Path) : List String :=
  if p.text.toList.getLast?.all isSlash then (FileTree.pieces p.text).dropLast
  else FileTree.pieces p.text

theorem pieces_join_eq (p : Path) (h : Joinable name) :
    FileTree.pieces (p.join name).text = p.ahead ++ [name] := by
  have hname : Text.split isSlash name.toList = [name.toList] := Text.split_eq_singleton h.no_slash
  rw [join, h.not_isAbsolute, ahead, FileTree.pieces]
  rcases List.eq_nil_or_concat' p.text.toList with hp | ⟨front, c, hp⟩
  · rw [hp]
    simp [FileTree.pieces, hp, hname, Text.split]
  · rw [hp, List.getLast?_concat, Option.all_some]
    cases hc : isSlash c with
    | true =>
      simp [FileTree.pieces, hp, Text.split_append_separator front hc, hname, Text.split]
    | false =>
      have hslash : isSlash '/' = true := rfl
      simp [FileTree.pieces, Text.split_append_separator _ hslash, hname]

theorem text_join (p : Path) : ∃ front : String, ∀ {name : String}, Joinable name →
    (p.join name).text = front ++ name := by
  cases hlast : p.text.toList.getLast?.all isSlash with
  | true => exact ⟨p.text, fun h => by rw [join, h.not_isAbsolute, hlast]⟩
  | false => exact ⟨p.text ++ "/", fun h => by rw [join, h.not_isAbsolute, hlast]⟩

theorem start_join (t : FileTree) (p : Path) (h : Joinable name) :
    FileTree.start t.workDir (p.join name) = FileTree.start t.workDir p := by
  rcases eq_or_ne p.text "" with hp | hp
  · have habsolute : p.isAbsolute = false := by
      rw [isAbsolute, hp]
      rfl
    have hjoin : p.join name = ⟨name⟩ := by
      rw [join, h.not_isAbsolute, hp]
      simp
    rw [hjoin, FileTree.start, FileTree.start, h.not_isAbsolute, habsolute]
  · rw [FileTree.start, isAbsolute_join h hp, ← FileTree.start]

end Path

namespace FileTree

variable {t t' : FileTree} {p : Path} {top : Location} {name : String} {purpose : Purpose}

/-! ### Walks to a name -/

theorem walk_none {n : Nat} {here : Location} (h : t.entry? here = none) (path : List String) :
    t.walk purpose n here path = .error .notFound := by
  rw [walk.eq_def, h]

theorem walk_of_not_folder {n : Nat} {here : Location} {e : Entry} (h : t.entry? here = some e)
    (he : e ≠ .folder) (piece : String) (rest : List String) :
    t.walk purpose n here (piece :: rest) = .error .notDirectory := by
  rw [walk.eq_def, h]
  cases e with
  | folder => exact absurd rfl he
  | _ => rfl

theorem Named.through (h : Named name) (purpose : Purpose) : Through purpose [name] :=
  .inr ⟨name, List.mem_singleton_self name, h.ne_empty⟩

theorem walk_name {n : Nat} (h : t.entry? top = some .folder) (hname : Named name) :
    t.walk purpose n top [name] =
      match t.entry? (top ++ [name]), n with
      | none, _ => .ok (.missing top name)
      | some (.link target), 0 =>
        if purpose = .itself then .ok (.found (top ++ [name]) (.link target)) else .error .linkLoop
      | some (.link target), n + 1 =>
        if purpose = .itself then .ok (.found (top ++ [name]) (.link target))
        else t.walk purpose n (start top ⟨target⟩) (pieces target)
      | some e, _ => .ok (.found (top ++ [name]) e) := by
  have hidle : ¬ (name = "" ∨ name = ".") := Path.isStep_eq_true.1 hname.isStep
  have hsize : ¬ maxNameSize < name.utf8ByteSize := not_lt.2 hname.size_le
  rw [walk.eq_def]
  simp only [h, hidle, hname.ne_up, hsize, if_false]
  cases he : t.entry? (top ++ [name]) with
  | none => simp
  | some e =>
    have hend (n : Nat) : t.walk purpose n (top ++ [name]) [] = .ok (.found (top ++ [name]) e) := by
      rw [walk.eq_def, he]
    cases e with
    | link target => cases n <;> simp
    | _ => simp [hend]

/-- A path that is a single name is missing where it starts. -/
theorem lookup_name_missing (hsought : Sought p) (hstart : start t.workDir p = top)
    (hpieces : pieces p.text = [name]) (hname : Named name) (htop : t.entry? top = some .folder)
    (hnone : t.entry? (top ++ [name]) = none) (purpose : Purpose) :
    t.lookup purpose p = .ok (.missing top name) := by
  refine lookup_eq_ok.2 ⟨hsought, ?_⟩
  rw [hstart, hpieces, walk_name htop hname, hnone]

/-- Pieces that lead to a folder, or else behind which no name can be looked up. -/
def Settled (t : FileTree) (n : Nat) (here : Location) (front : List String) : Prop :=
  (∃ m top, t.Leads n here front m top ∧ t.entry? top = some .folder) ∨
    ∃ e, ∀ purpose name, Named name → t.walk purpose n here (front ++ [name]) = .error e

theorem Settled.of_step {n n' : Nat} {here here' : Location} {front front' : List String}
    (h : t.Settled n' here' front')
    (hleads : ∀ {m top}, t.Leads n' here' front' m top → t.Leads n here front m top)
    (hwalk : ∀ purpose name, Named name → t.walk purpose n here (front ++ [name]) =
      t.walk purpose n' here' (front' ++ [name])) : t.Settled n here front := by
  rcases h with ⟨m, top, hl, htop⟩ | ⟨e, he⟩
  · exact .inl ⟨m, top, hleads hl, htop⟩
  · exact .inr ⟨e, fun purpose name hname =>
      (hwalk purpose name hname).trans (he purpose name hname)⟩

theorem settled (t : FileTree) (n : Nat) (here : Location) (front : List String) :
    t.Settled n here front := by
  have through {rest : List String} (purpose : Purpose) {name : String} (hname : Named name) :
      Through purpose (rest ++ [name]) := (hname.through purpose).append rest
  fun_induction walk t .target n here front with
  | case1 n here path he => exact .inr ⟨.notFound, fun _ _ _ => walk_none he _⟩
  | case2 n here e he =>
    cases e with
    | folder => exact .inl ⟨n, here, .done, he⟩
    | _ => exact .inr ⟨.notDirectory, fun _ _ _ => walk_of_not_folder he (by simp) _ _⟩
  | case3 n here piece rest hf hp ih =>
    have hstay := Path.isStep_eq_false.2 hp
    exact ih.of_step (.stay hf hstay) fun _ _ _ => walk_stay hf hstay
  | case4 n here rest hf _ ih => exact ih.of_step (.up hf) fun _ _ _ => walk_up hf
  | case6 n here piece rest hf hp hup _ hsize =>
    refine .inr ⟨.nameTooLong, fun purpose name hname => ?_⟩
    rw [List.cons_append, walk_named hf (Path.isStep_eq_true.2 hp) hup (through purpose hname),
      if_pos hsize]
  | case7 n here piece rest hf hp hup _ hsize he
  | case8 n here piece rest hf hp hup _ hsize he =>
    refine .inr ⟨.notFound, fun purpose name hname => ?_⟩
    rw [List.cons_append, walk_named hf (Path.isStep_eq_true.2 hp) hup (through purpose hname),
      if_neg hsize, he]
    exact if_neg (by simp [hname.ne_empty])
  | case10 here piece rest hf hp hup _ hsize target he _ =>
    refine .inr ⟨.linkLoop, fun purpose name hname => ?_⟩
    rw [List.cons_append, walk_named hf (Path.isStep_eq_true.2 hp) hup (through purpose hname),
      if_neg hsize, he]
  | case11 here piece rest hf hp hup _ hsize target he _ n ih =>
    have hstep := Path.isStep_eq_true.2 hp
    refine ih.of_step (.follow hf ⟨hstep, hup, not_lt.1 hsize⟩ he) fun purpose name hname => ?_
    rw [List.cons_append, walk_named hf hstep hup (through purpose hname), if_neg hsize, he,
      List.append_assoc]
  | case12 here piece rest hf hp hup _ hsize e n hlink he ih =>
    have hstep := Path.isStep_eq_true.2 hp
    refine ih.of_step (.down hf ⟨hstep, hup, not_lt.1 hsize⟩ he hlink) fun purpose name hname => ?_
    rw [List.cons_append, walk_named hf hstep hup (through purpose hname), if_neg hsize, he]
    cases e with
    | link target => exact absurd rfl (hlink target)
    | _ => rfl
  | case13 n here piece rest e hf he =>
    exact .inr ⟨.notDirectory, fun _ _ _ => walk_of_not_folder he hf _ _⟩
  | _ => simp_all

/-! ### Names in a folder -/

/-- What a name leads to in a folder. -/
def seen (t : FileTree) (top : Location) (name : String) : Lookup :=
  match t.entry? (top ++ [name]) with
  | none => .missing top name
  | some e => .found (top ++ [name]) e

/-- A path below which names are looked up in the folder `top`. -/
structure Seat (t : FileTree) (p : Path) (top : Location) : Prop where
  folder : t.entry? top = some .folder
  route : ∃ m, t.Leads maxLinks (start t.workDir p) p.ahead m top

theorem Sought.join_of_size_eq {other : String} (hname : ProperName name)
    (hother : ProperName other) (hsize : other.utf8ByteSize = name.utf8ByteSize)
    (h : Sought (p.join name)) : Sought (p.join other) := by
  obtain ⟨front, hfront⟩ := Path.text_join p
  obtain ⟨-, hnul, hshort⟩ := h
  rw [hfront hname.toJoinable, String.toList_append, List.mem_append, not_or] at hnul
  rw [hfront hname.toJoinable, String.utf8ByteSize_append] at hshort
  refine ⟨?_, ?_, ?_⟩ <;> rw [hfront hother.toJoinable]
  · intro hempty
    exact hother.ne_empty (String.append_eq_empty_iff.1 hempty).2
  · rw [String.toList_append, List.mem_append, not_or]
    exact ⟨hnul.1, hother.no_nul⟩
  · rw [String.utf8ByteSize_append, hsize]
    exact hshort

/-- A path has a folder for names below it, or none of them is found. -/
theorem seat_or_error (t : FileTree) (p : Path) : (∃ top, Seat t p top) ∨
    ∀ purpose name, ProperName name → ∃ e, t.lookup purpose (p.join name) = .error e := by
  rcases settled t maxLinks (start t.workDir p) p.ahead with ⟨m, top, hl, htop⟩ | ⟨e, he⟩
  · exact .inl ⟨top, htop, m, hl⟩
  · refine .inr fun purpose name hname => ?_
    have hwalk := he purpose name hname.toNamed
    rw [← Path.pieces_join_eq p hname.toJoinable, ← Path.start_join t p hname.toJoinable] at hwalk
    rw [lookup, hwalk]
    split_ifs <;> exact ⟨_, rfl⟩

theorem exists_error_of_not_sought (purpose : Purpose) (h : ¬ Sought p) :
    ∃ e, t.lookup purpose p = .error e := by
  cases hl : t.lookup purpose p with
  | error e => exact ⟨e, rfl⟩
  | ok found => exact absurd (lookup_eq_ok.1 hl).1 h

namespace Seat

theorem stays (h : Seat t p top) (hstays : Stays t t') : Seat t' p top := by
  have hfolder := hstays.folder h.folder
  obtain ⟨m, hl⟩ := h.route
  refine ⟨hfolder, m, ?_⟩
  rw [start, hstays.workDir_eq, ← start]
  exact hstays.leads hl ⟨.folder, hfolder, by simp⟩

section Name

variable (hname : ProperName name)
include hname

theorem lookup_eq (h : Seat t p top) (hsought : Sought (p.join name)) (purpose : Purpose)
    (hlink : ∀ target, t.entry? (top ++ [name]) = some (.link target) → purpose = .itself) :
    t.lookup purpose (p.join name) = .ok (t.seen top name) := by
  obtain ⟨m, hl⟩ := h.route
  refine lookup_eq_ok.2 ⟨hsought, ?_⟩
  rw [Path.pieces_join_eq p hname.toJoinable, Path.start_join t p hname.toJoinable,
    hl.walk_append (hname.toNamed.through purpose), walk_name h.folder hname.toNamed, seen]
  cases he : t.entry? (top ++ [name]) with
  | none => rfl
  | some e =>
    cases e with
    | link target => cases m <;> simp [hlink target he]
    | _ => rfl

theorem resolve_missing (h : Seat t p top) (hsought : Sought (p.join name))
    (hnone : t.entry? (top ++ [name]) = none) : t.resolve (p.join name) = .error .notFound := by
  rw [resolve, h.lookup_eq hname hsought .target (by simp [hnone]), seen, hnone]

/-- A file can be written under a name that is free or that of another file. -/
theorem write_run (h : Seat t p top) (hsought : Sought (p.join name))
    (hentry : t.entry? (top ++ [name]) = none ∨
      ∃ old, t.entry? (top ++ [name]) = some (.file old)) (content : Text.Utf8.Bytes) :
    (write (p.join name) content).run t = .ok () (t.put (top ++ [name]) (.file content)) := by
  have hseen := h.lookup_eq hname hsought .writing
  rw [write_eq]
  rcases hentry with hnone | ⟨old, hold⟩
  · rw [hseen (by simp [hnone]), seen, hnone]
  · rw [hseen (by simp [hold]), seen, hold]

theorem resolve_eq (h : Seat t p top) (hsought : Sought (p.join name)) {e : Entry}
    (he : t.entry? (top ++ [name]) = some e) (hlink : ∀ target, e ≠ .link target) :
    t.resolve (p.join name) = .ok (top ++ [name], e) := by
  have hseen := h.lookup_eq hname hsought .target
    fun target htarget => absurd (Option.some.inj (he.symm.trans htarget)) (hlink target)
  rw [resolve, hseen, seen, he]

end Name

end Seat

/-! ### Removing a file -/

theorem remove_eq (p : Path) (t : FileTree) : (remove p).run t =
    match t.lookup .itself p with
    | .ok (.found _ .folder) => .error .isDirectory t
    | .ok (.found loc _) => .ok () (t.erase loc)
    | .ok (.missing ..) => .error .notFound t
    | .error e => .error e t := by
  simp only [remove, EStateM.run_bind, EStateM.run_get]
  cases t.lookup .itself p with
  | error e => rfl
  | ok found =>
    cases found with
    | found loc e => cases e <;> rfl
    | missing folder name => rfl

end FileTree

end EndpointCatalog
