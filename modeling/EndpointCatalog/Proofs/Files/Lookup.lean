import EndpointCatalog.Proofs.Files.Path

/-! Where a path leads. A walk that comes to an end is a chain of steps: it stays, goes up,
goes down or follows a link. Empty pieces and `.` change nothing about a walk that ends
at a file, so what is read from a path depends on its components alone. -/

namespace EndpointCatalog.FileTree

variable {t : FileTree}

/-! ### One step -/

theorem walk_stay {purpose : Purpose} {n : Nat} {here : Location} {piece : String}
    {rest : List String} (h : t.entry? here = some .folder) (hp : Path.isStep piece = false) :
    t.walk purpose n here (piece :: rest) = t.walk purpose n here rest := by
  have hidle : piece = "" ∨ piece = "." := Path.isStep_eq_false.1 hp
  rw [walk.eq_def]
  simp [h, hidle]

theorem walk_up {purpose : Purpose} {n : Nat} {here : Location} {rest : List String}
    (h : t.entry? here = some .folder) :
    t.walk purpose n here (".." :: rest) = t.walk purpose n here.dropLast rest := by
  rw [walk.eq_def]
  simp [h]

section Name

variable {purpose : Purpose} {n : Nat} {here : Location} {piece : String} {rest : List String}

/-- A piece that names an entry of a folder. -/
structure Named (piece : String) : Prop where
  isStep : Path.isStep piece = true
  ne_up : piece ≠ ".."
  size_le : piece.utf8ByteSize ≤ maxNameSize

theorem Named.ne_empty (h : Named piece) : piece ≠ "" := by
  rintro rfl
  cases h.isStep

/-- With such pieces behind it a name is walked through as on the way to a target: either the
walk is one to a target, or a name is still to come. -/
def Through (purpose : Purpose) (rest : List String) : Prop :=
  purpose = .target ∨ ∃ next ∈ rest, next ≠ ""

theorem Through.append {more : List String} (h : Through purpose more) (front : List String) :
    Through purpose (front ++ more) :=
  h.imp_right fun ⟨next, hmem, hne⟩ => ⟨next, List.mem_append_right front hmem, hne⟩

theorem walk_named (h : t.entry? here = some .folder) (hstep : Path.isStep piece = true)
    (hup : piece ≠ "..") (hrest : Through purpose rest) :
    t.walk purpose n here (piece :: rest) =
      if maxNameSize < piece.utf8ByteSize then .error .nameTooLong
      else match t.entry? (here ++ [piece]), n with
        | none, _ => if rest.all (· = "") then .ok (.missing here piece) else .error .notFound
        | some (.link _), 0 => .error .linkLoop
        | some (.link target), n + 1 =>
          t.walk purpose n (start here ⟨target⟩) (pieces target ++ rest)
        | some _, n => t.walk purpose n (here ++ [piece]) rest := by
  have hidle : ¬ (piece = "" ∨ piece = ".") := Path.isStep_eq_true.1 hstep
  have hwriting : ¬ (purpose = .writing ∧ rest ≠ [] ∧ rest.all (· = "") = true) := by
    rcases hrest with rfl | ⟨next, hmem, hne⟩
    · exact fun hp => nomatch hp.1
    · exact fun hp => hne (of_decide_eq_true (List.all_eq_true.1 hp.2.2 next hmem))
  have hitself : ¬ (rest = [] ∧ purpose = .itself) := by
    rcases hrest with rfl | ⟨next, hmem, -⟩
    · exact fun hp => nomatch hp.2
    · exact fun hp => List.ne_nil_of_mem hmem hp.1
  rw [walk.eq_def]
  simp only [h, hidle, hup, hwriting, hitself, if_false]
  cases t.entry? (here ++ [piece]) with
  | none => rfl
  | some e =>
    cases e with
    | link target => cases n <;> rfl
    | _ => rfl

end Name

/-! ### Walks -/

/-- A walk along pieces from one location to another, with the links that may still be
followed before and after it. -/
inductive Leads (t : FileTree) : Nat → Location → List String → Nat → Location → Prop
  | done {n : Nat} {here : Location} : t.Leads n here [] n here
  | stay {n m : Nat} {here loc : Location} {piece : String} {rest : List String} :
      t.entry? here = some .folder → Path.isStep piece = false →
      t.Leads n here rest m loc → t.Leads n here (piece :: rest) m loc
  | up {n m : Nat} {here loc : Location} {rest : List String} :
      t.entry? here = some .folder →
      t.Leads n here.dropLast rest m loc → t.Leads n here (".." :: rest) m loc
  | follow {n m : Nat} {here loc : Location} {piece target : String} {rest : List String} :
      t.entry? here = some .folder → Named piece →
      t.entry? (here ++ [piece]) = some (.link target) →
      t.Leads n (start here ⟨target⟩) (pieces target ++ rest) m loc →
      t.Leads (n + 1) here (piece :: rest) m loc
  | down {n m : Nat} {here loc : Location} {piece : String} {rest : List String} {e : Entry} :
      t.entry? here = some .folder → Named piece →
      t.entry? (here ++ [piece]) = some e → (∀ target, e ≠ .link target) →
      t.Leads n (here ++ [piece]) rest m loc → t.Leads n here (piece :: rest) m loc

theorem Leads.walk_append {purpose : Purpose} {n m : Nat} {here loc : Location}
    {path more : List String} (h : t.Leads n here path m loc) (hmore : Through purpose more) :
    t.walk purpose n here (path ++ more) = t.walk purpose m loc more := by
  induction h with
  | done => rfl
  | stay hf hp _ ih => rw [List.cons_append, walk_stay hf hp, ih]
  | up hf _ ih => rw [List.cons_append, walk_up hf, ih]
  | follow hf hp he _ ih =>
    rw [List.cons_append, walk_named hf hp.isStep hp.ne_up (hmore.append _),
      if_neg (not_lt.2 hp.size_le), he, ← ih, List.append_assoc]
  | @down n m here loc piece rest e hf hp he hl _ ih =>
    rw [List.cons_append, walk_named hf hp.isStep hp.ne_up (hmore.append _),
      if_neg (not_lt.2 hp.size_le), he, ← ih]
    cases e with
    | link target => exact absurd rfl (hl target)
    | file content => cases n <;> rfl
    | folder => cases n <;> rfl

/-- A walk comes to an entry exactly if its steps lead there. -/
theorem walk_eq_found_iff {n : Nat} {here loc : Location} {path : List String} {e : Entry} :
    t.walk .target n here path = .ok (.found loc e) ↔
      (∃ m, t.Leads n here path m loc) ∧ t.entry? loc = some e := by
  constructor
  · intro h
    fun_induction walk t .target n here path with
    | case1 => cases h
    | case2 n here e he =>
      cases h
      exact ⟨⟨n, .done⟩, he⟩
    | case3 n here piece rest hf hp ih =>
      obtain ⟨⟨m, hl⟩, he⟩ := ih h
      exact ⟨⟨m, .stay hf (by rcases hp with rfl | rfl <;> rfl) hl⟩, he⟩
    | case4 n here rest hf _ ih =>
      obtain ⟨⟨m, hl⟩, he⟩ := ih h
      exact ⟨⟨m, .up hf hl⟩, he⟩
    | case11 here piece rest hf hp hup _ hsize target ht _ n ih =>
      obtain ⟨⟨m, hl⟩, he⟩ := ih h
      exact ⟨⟨m, .follow hf ⟨Path.isStep_eq_true.2 hp, hup, not_lt.1 hsize⟩ ht hl⟩, he⟩
    | case12 here piece rest hf hp hup _ hsize e n hn ht ih =>
      obtain ⟨⟨m, hl⟩, he⟩ := ih h
      exact ⟨⟨m, .down hf ⟨Path.isStep_eq_true.2 hp, hup, not_lt.1 hsize⟩ ht hn hl⟩, he⟩
    | _ => simp_all
  · rintro ⟨⟨m, hl⟩, he⟩
    rw [← List.append_nil path, hl.walk_append (.inl rfl), walk.eq_def]
    simp [he]

/-- A walk ends at a file. -/
theorem Leads.of_file {n m : Nat} {here loc : Location} {path : List String}
    {content : Text.Utf8.Bytes} (h : t.Leads n here path m loc)
    (hfile : t.entry? here = some (.file content)) : path = [] ∧ here = loc := by
  cases h with
  | done => exact ⟨rfl, rfl⟩
  | stay hf => cases hf.symm.trans hfile
  | up hf => cases hf.symm.trans hfile
  | follow hf => cases hf.symm.trans hfile
  | down hf => cases hf.symm.trans hfile

/-! ### Walks in a row -/

theorem Leads.links_le {n m : Nat} {here loc : Location} {path : List String}
    (h : t.Leads n here path m loc) : m ≤ n := by
  induction h with
  | done => exact le_rfl
  | stay _ _ _ ih => exact ih
  | up _ _ ih => exact ih
  | follow _ _ _ _ ih => exact Nat.le_succ_of_le ih
  | down _ _ _ _ _ ih => exact ih

theorem Leads.append {n k m : Nat} {here mid loc : Location} {front rest : List String}
    (h : t.Leads n here front k mid) (hrest : t.Leads k mid rest m loc) :
    t.Leads n here (front ++ rest) m loc := by
  induction h with
  | done => exact hrest
  | stay hf hp _ ih => exact .stay hf hp (ih hrest)
  | up hf _ ih => exact .up hf (ih hrest)
  | follow hf hp he _ ih =>
    have hwalk := ih hrest
    rw [List.append_assoc] at hwalk
    exact .follow hf hp he hwalk
  | down hf hp he hl _ ih => exact .down hf hp he hl (ih hrest)

/-- A walk along two lists of pieces pauses between them. -/
theorem Leads.split {n m : Nat} {here loc : Location} {front rest : List String}
    (h : t.Leads n here (front ++ rest) m loc) :
    ∃ k mid, t.Leads n here front k mid ∧ t.Leads k mid rest m loc := by
  -- On the links that are left and then on the pieces, since a link puts its target in front.
  induction n using Nat.strong_induction_on generalizing here front with
  | _ n links =>
    induction front generalizing here with
    | nil => exact ⟨n, here, .done, h⟩
    | cons piece front ih =>
      rw [List.cons_append] at h
      cases h with
      | stay hf hp h =>
        obtain ⟨k, mid, hfront, hrest⟩ := ih h
        exact ⟨k, mid, .stay hf hp hfront, hrest⟩
      | up hf h =>
        obtain ⟨k, mid, hfront, hrest⟩ := ih h
        exact ⟨k, mid, .up hf hfront, hrest⟩
      | follow hf hp he h =>
        rw [← List.append_assoc] at h
        obtain ⟨k, mid, hfront, hrest⟩ := links _ (Nat.lt_succ_self _) h
        exact ⟨k, mid, .follow hf hp he hfront, hrest⟩
      | down hf hp he hl h =>
        obtain ⟨k, mid, hfront, hrest⟩ := ih h
        exact ⟨k, mid, .down hf hp he hl hfront, hrest⟩

/-- Pieces that lead nowhere can be left out. -/
theorem Leads.filter {n m : Nat} {here loc : Location} {path : List String}
    (h : t.Leads n here path m loc) : t.Leads n here (path.filter Path.isStep) m loc := by
  induction n using Nat.strong_induction_on generalizing here path with
  | _ n links =>
    induction path generalizing here with
    | nil => exact h
    | cons piece rest ih =>
      cases h with
      | stay hf hp h =>
        rw [List.filter_cons_of_neg (by simpa using hp)]
        exact ih h
      | up hf h => exact .up hf (ih h)
      | follow hf hp he h =>
        -- The pieces of the target stay, and what follows them has fewer links left.
        obtain ⟨k, mid, htarget, hrest⟩ := h.split
        rw [List.filter_cons_of_pos hp.isStep]
        have hrest' := links k (Nat.lt_succ_of_le htarget.links_le) hrest
        exact .follow hf hp he (htarget.append hrest')
      | down hf hp he hl h =>
        rw [List.filter_cons_of_pos hp.isStep]
        exact .down hf hp he hl (ih h)

/-! ### Reading -/

theorem resolve_eq_ok {p : Path} {loc : Location} {e : Entry} :
    t.resolve p = .ok (loc, e) ↔ t.lookup .target p = .ok (.found loc e) := by
  rw [resolve]
  cases t.lookup .target p with
  | error => simp
  | ok found => cases found <;> simp

theorem read_eq_ok {p : Path} {bytes : Text.Utf8.Bytes} :
    t.read p = .ok bytes ↔ ∃ loc, t.resolve p = .ok (loc, .file bytes) := by
  rw [read]
  cases t.resolve p with
  | error => simp
  | ok found =>
    obtain ⟨loc, e⟩ := found
    cases e <;> simp

theorem leads_of_resolve {p : Path} {loc : Location} {e : Entry} (h : t.resolve p = .ok (loc, e)) :
    (∃ m, t.Leads maxLinks (start t.workDir p) (pieces p.text) m loc) ∧ t.entry? loc = some e := by
  rw [resolve_eq_ok, lookup] at h
  split_ifs at h
  exact walk_eq_found_iff.1 h

/-- A file that can be read under two spellings of a path has one content. -/
theorem read_eq_of_components {p q : Path} (h : p.components = q.components)
    {bytes bytes' : Text.Utf8.Bytes} (hp : t.read p = .ok bytes) (hq : t.read q = .ok bytes') :
    bytes = bytes' := by
  have walk_steps {p : Path} {bytes : Text.Utf8.Bytes} (hp : t.read p = .ok bytes) :
      ∃ loc, t.walk .target maxLinks (start t.workDir p) p.steps =
        .ok (.found loc (.file bytes)) := by
    obtain ⟨loc, hloc⟩ := read_eq_ok.1 hp
    obtain ⟨⟨m, hl⟩, he⟩ := leads_of_resolve hloc
    exact ⟨loc, walk_eq_found_iff.2 ⟨⟨m, hl.filter⟩, he⟩⟩
  obtain ⟨loc, hloc⟩ := walk_steps hp
  obtain ⟨loc', hloc'⟩ := walk_steps hq
  obtain ⟨habs, hsteps⟩ := Path.steps_eq_of_components h
  rw [start, habs, hsteps, ← start, hloc'] at hloc
  cases hloc
  rfl

end EndpointCatalog.FileTree
