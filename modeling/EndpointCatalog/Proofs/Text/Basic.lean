import EndpointCatalog.Text.Blank
import EndpointCatalog.Text.Utf8
import EndpointCatalog.Text.WordChar

/-! Pieces of text. Offsets count bytes, and the byte size of a front part tells where a
text is cut. No character is both white space and part of a word. -/

namespace EndpointCatalog.Text

/-! ### Byte sizes -/

@[simp] theorem byteSize_nil : byteSize [] = 0 := rfl

@[simp] theorem byteSize_cons (c : Char) (cs : List Char) :
    byteSize (c :: cs) = c.utf8Size + byteSize cs := rfl

@[simp] theorem byteSize_append (as bs : List Char) :
    byteSize (as ++ bs) = byteSize as + byteSize bs := by
  induction as with
  | nil => simp
  | cons a as ih => simp [ih, Nat.add_assoc]

/-- Two ways to cut a text at one offset are the same. -/
theorem append_inj_of_byteSize {as bs cs ds : List Char} (h : as ++ bs = cs ++ ds)
    (hs : byteSize as = byteSize cs) : as = cs ∧ bs = ds := by
  induction as generalizing cs with
  | nil =>
    cases cs with
    | nil => exact ⟨rfl, h⟩
    | cons c cs =>
      have hc := c.utf8Size_pos
      rw [byteSize_nil, byteSize_cons] at hs
      omega
  | cons a as ih =>
    cases cs with
    | nil =>
      have ha := a.utf8Size_pos
      rw [byteSize_nil, byteSize_cons] at hs
      omega
    | cons c cs =>
      rw [List.cons_append, List.cons_append, List.cons.injEq] at h
      obtain ⟨rfl, h⟩ := h
      rw [byteSize_cons, byteSize_cons] at hs
      obtain ⟨rfl, rfl⟩ := ih h (by omega)
      exact ⟨rfl, rfl⟩

/-- Of two ways to cut a text, the earlier front begins the later one. -/
theorem append_of_byteSize_le {as bs cs ds : List Char} (h : as ++ bs = cs ++ ds)
    (hs : byteSize as ≤ byteSize cs) : ∃ xs, cs = as ++ xs ∧ bs = xs ++ ds := by
  rcases List.append_eq_append_iff.1 h with ⟨xs, hcs, hbs⟩ | ⟨xs, has, hds⟩
  · exact ⟨xs, hcs, hbs⟩
  · have hxs : byteSize as = byteSize cs := by
      rw [has, byteSize_append] at hs ⊢
      omega
    obtain ⟨rfl, rfl⟩ := append_inj_of_byteSize h hxs
    exact ⟨[], by simp, rfl⟩

/-! ### Cuts -/

/-- A piece without a mark stands before the mark or behind it. -/
theorem before_or_behind {α : Type} {xs ys front piece back : List α} {m : α}
    (h : xs ++ m :: ys = front ++ (piece ++ back)) (hne : piece ≠ []) (hm : m ∉ piece) :
    (∃ rest, xs = front ++ (piece ++ rest) ∧ back = rest ++ m :: ys) ∨
      ∃ rest, front = xs ++ m :: rest ∧ ys = rest ++ (piece ++ back) := by
  rcases List.append_eq_append_iff.1 h with ⟨as, rfl, has⟩ | ⟨as, rfl, has⟩
  · cases as with
    | nil =>
      obtain ⟨p, piece, rfl⟩ := List.exists_cons_of_ne_nil hne
      obtain ⟨rfl, -⟩ := List.cons.inj has
      exact absurd List.mem_cons_self hm
    | cons a as =>
      obtain ⟨rfl, rfl⟩ := List.cons.inj has
      exact .inr ⟨as, rfl, rfl⟩
  · rcases List.append_eq_append_iff.1 has with ⟨bs, rfl, hbs⟩ | ⟨bs, rfl, hbs⟩
    · exact .inl ⟨bs, rfl, hbs⟩
    · cases bs with
      | nil => exact .inl ⟨[], by simp, by simpa using hbs.symm⟩
      | cons b bs =>
        obtain ⟨rfl, -⟩ := List.cons.inj hbs
        exact absurd (List.mem_append_right as List.mem_cons_self) hm

/-- At its first mark a text is cut in one way. -/
theorem append_cons_inj {α : Type} {P : α → Prop} {xs ys xs' ys' : List α} {a a' : α}
    (h : xs ++ a :: ys = xs' ++ a' :: ys') (hxs : ∀ c ∈ xs, ¬ P c) (ha : P a)
    (hxs' : ∀ c ∈ xs', ¬ P c) (ha' : P a') : xs = xs' ∧ a = a' ∧ ys = ys' := by
  induction xs generalizing xs' with
  | nil =>
    cases xs' with
    | nil => exact ⟨rfl, List.cons.inj h⟩
    | cons x' xs' =>
      obtain ⟨rfl, -⟩ := List.cons.inj h
      exact absurd ha (hxs' a List.mem_cons_self)
  | cons x xs ih =>
    cases xs' with
    | nil =>
      obtain ⟨rfl, -⟩ := List.cons.inj h
      exact absurd ha' (hxs x List.mem_cons_self)
    | cons x' xs' =>
      obtain ⟨rfl, htail⟩ := List.cons.inj h
      obtain ⟨rfl, hrest⟩ :=
        ih htail (fun c hc => hxs c (List.mem_cons_of_mem x hc))
          (fun c hc => hxs' c (List.mem_cons_of_mem x hc))
      exact ⟨rfl, hrest⟩

theorem mem_of_append_eq {α : Type} {xs ys front back : List α} {a : α}
    (h : xs ++ ys = front ++ a :: back) (hlt : front.length < xs.length) : a ∈ xs := by
  rcases List.append_eq_append_iff.1 h with ⟨as, rfl, -⟩ | ⟨as, rfl, has⟩
  · rw [List.length_append] at hlt
    omega
  · cases as with
    | nil => simp at hlt
    | cons b as =>
      obtain ⟨rfl, -⟩ := List.cons.inj has
      exact List.mem_append_right front List.mem_cons_self

/-- A piece at the end of a text is empty if it cannot have the last character of the text. -/
theorem eq_nil_of_concat_eq {α : Type} {P : α → Prop} {as bs cs : List α} {a : α}
    (h : as ++ [a] = bs ++ cs) (hcs : ∀ c ∈ cs, P c) (ha : ¬ P a) : cs = [] := by
  rcases List.eq_nil_or_concat cs with rfl | ⟨cs, c, rfl⟩
  · rfl
  · rw [List.concat_eq_append, ← List.append_assoc] at h
    obtain ⟨-, hac⟩ := List.append_inj' h rfl
    rw [List.singleton_inj.1 hac] at ha
    exact absurd (hcs c (by simp)) ha

/-! ### Classes of characters -/

/-- A statement about the characters of a list is decided along the list, rather than by
going through all characters there are. -/
instance (priority := high) decidableForallMem (cs : List Char) (p : Char → Prop)
    [DecidablePred p] : Decidable (∀ c ∈ cs, p c) :=
  List.decidableBAll p cs

theorem CodeRange.exists_of_covers {rs : List CodeRange} {n : Nat} (h : covers rs n = true) :
    ∃ r ∈ rs, r.first ≤ n ∧ n ≤ r.last := by
  induction rs with
  | nil => cases h
  | cons r rs ih =>
    rw [covers] at h
    split at h
    next => cases h
    next hfirst =>
      rcases Bool.or_eq_true_iff.1 h with hlast | hrest
      · exact ⟨r, List.mem_cons_self, by omega, by simpa using hlast⟩
      · obtain ⟨r', hr', hn⟩ := ih hrest
        exact ⟨r', List.mem_cons_of_mem r hr', hn⟩

/-- No code point is in a range of both lists. -/
def CodeRange.disjoint (rs rs' : List CodeRange) : Bool :=
  rs.all fun r => rs'.all fun r' => r.last < r'.first || r'.last < r.first

theorem CodeRange.covers_of_disjoint {rs rs' : List CodeRange} (h : disjoint rs rs' = true)
    {n : Nat} (hn : covers rs n = true) : covers rs' n = false := by
  rw [← Bool.not_eq_true]
  intro hn'
  obtain ⟨r, hr, hfirst, hlast⟩ := exists_of_covers hn
  obtain ⟨r', hr', hfirst', hlast'⟩ := exists_of_covers hn'
  have hapart := List.all_eq_true.1 (List.all_eq_true.1 h r hr) r' hr'
  simp only [Bool.or_eq_true, decide_eq_true_eq] at hapart
  omega

theorem blankRanges_disjoint : CodeRange.disjoint blankRanges wordRanges = true := by
  decide +kernel

theorem isWordChar_of_isBlank {c : Char} (h : isBlank c = true) : isWordChar c = false :=
  CodeRange.covers_of_disjoint blankRanges_disjoint h

theorem isBlank_of_isWordChar {c : Char} (h : isWordChar c = true) : isBlank c = false := by
  rw [← Bool.not_eq_true]
  intro hblank
  rw [isWordChar_of_isBlank hblank] at h
  cases h

/-- A character other than the one that stands for no number has one number. -/
theorem eq_of_ofNat_eq {n : Nat} {c : Char} (h : Char.ofNat n = c) (hc : c ≠ '\x00') :
    n = c.toNat := by
  subst h
  by_cases hvalid : n.isValidChar
  · rw [Char.ofNat, dif_pos hvalid]
    rfl
  · exact absurd (dif_neg hvalid) hc

/-- The characters with a given small letter, or other character, in small. -/
theorem eq_of_toLower_eq {c l : Char} (h : c.toLower = l) :
    c = l ∨ c = Char.ofNat (l.toNat - 32) := by
  delta Char.toLower at h
  split at h
  next hupper =>
    have hle : c.val.toNat ≤ 90 := UInt32.le_iff_toNat_le.1 hupper.2
    have hl : l.toNat = c.toNat + 32 := by
      rw [← h]
      change (c.val + 32).toNat = c.val.toNat + 32
      rw [UInt32.toNat_add, Nat.mod_eq_of_lt (by change c.val.toNat + 32 < _; omega)]
      rfl
    rw [hl, Nat.add_sub_cancel, Char.ofNat_toNat]
    exact .inr rfl
  next => exact .inl h

/-- A character that is no small letter is the small form of itself only. -/
theorem eq_of_toLower {c l : Char} (h : c.toLower = l) (hl : l.isLower = false) : c = l := by
  delta Char.toLower at h
  split at h
  next hupper =>
    rw [← h] at hl
    delta Char.isLower at hl
    rw [Bool.and_eq_false_iff, decide_eq_false_iff_not, decide_eq_false_iff_not] at hl
    grind
  next => exact h

/-! ### Trimming -/

theorem infix_dropWhile {p : Char → Bool} {m cs : List Char} (h : m <:+: cs)
    (hm : ∀ c ∈ m, p c = false) : m <:+: cs.dropWhile p := by
  induction cs with
  | nil => exact h
  | cons c cs ih =>
    rw [List.dropWhile_cons]
    split
    next hc =>
      rcases List.infix_cons_iff.1 h with hprefix | hinfix
      · cases m with
        | nil => exact List.nil_infix
        | cons d ds =>
          obtain ⟨rfl, _⟩ := List.cons_prefix_cons.1 hprefix
          rw [hm d List.mem_cons_self] at hc
          cases hc
      · exact ih hinfix
    next => exact h

/-- Trimming a text keeps every piece of it that has no white space. -/
theorem infix_trimChars {m cs : List Char} (h : m <:+: cs) (hm : ∀ c ∈ m, isBlank c = false) :
    m <:+: trimChars cs := by
  rw [trimChars, dropWhileEnd, ← List.reverse_infix, List.reverse_reverse]
  refine infix_dropWhile (List.reverse_infix.2 (infix_dropWhile h hm)) fun c hc => ?_
  exact hm c (List.mem_reverse.1 hc)

theorem trimChars_eq_self {cs : List Char} (h : ∀ c ∈ cs, isBlank c = false) :
    trimChars cs = cs := by
  have hend (ds : List Char) (hds : ∀ c ∈ ds, isBlank c = false) : ds.dropWhile isBlank = ds := by
    cases ds with
    | nil => rfl
    | cons d ds => exact List.dropWhile_cons_of_neg (by simp [hds])
  rw [trimChars, dropWhileEnd, hend cs h, hend _ fun c hc => h c (List.mem_reverse.1 hc),
    List.reverse_reverse]

end EndpointCatalog.Text
