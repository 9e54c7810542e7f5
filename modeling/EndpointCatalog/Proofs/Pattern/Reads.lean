import EndpointCatalog.Extract.Candidate
import EndpointCatalog.Proofs.Text.Basic
import Mathlib.Data.List.Forall2

/-! What patterns read. A match cuts the text into what stands before it, its three parts
and what stands after it; each part is read by the atoms of the part. Matches that read
at least one character stand at the offsets that are given for them. -/

namespace EndpointCatalog

/-- The character before a place, when one more character is read first. -/
theorem getLast?_cons_or {α : Type} (a : α) (as : List α) (left : Option α) :
    (a :: as).getLast?.or left = as.getLast?.or (some a) := by
  rw [List.getLast?_cons]
  cases as.getLast? <;> rfl

namespace Atom

/-- What an atom can read, whatever stands around it. -/
def Reads : Atom → List Char → Prop
  | one set, cs => ∃ c, cs = [c] ∧ set c = true
  | many set, cs => ∀ c ∈ cs, set c = true
  | boundary, cs => cs = []

/-- What atoms can read one after the other. -/
def ReadAll : List Atom → List Char → Prop
  | [], cs => cs = []
  | a :: atoms, cs => ∃ part rest, cs = part ++ rest ∧ a.Reads part ∧ ReadAll atoms rest

theorem readAll_flatten {atoms : List Atom} {parts : List (List Char)}
    (h : List.Forall₂ Reads atoms parts) : ReadAll atoms parts.flatten := by
  induction h with
  | nil => rfl
  | cons ha _ ih => exact ⟨_, _, rfl, ha, ih⟩

theorem readAll_append {atoms atoms' : List Atom} {cs : List Char} :
    ReadAll (atoms ++ atoms') cs ↔ ∃ front back, cs = front ++ back ∧ ReadAll atoms front ∧
      ReadAll atoms' back := by
  induction atoms generalizing cs with
  | nil => simp [ReadAll]
  | cons a atoms ih =>
    simp only [List.cons_append, ReadAll, ih]
    constructor
    · rintro ⟨part, _, rfl, ha, front, back, rfl, hf, hb⟩
      exact ⟨part ++ front, back, by simp, ⟨part, front, rfl, ha, hf⟩, hb⟩
    · rintro ⟨_, back, rfl, ⟨part, front, rfl, ha, hf⟩, hb⟩
      exact ⟨part, front ++ back, by simp, ha, front, back, rfl, hf, hb⟩

theorem readAll_singleton {a : Atom} {cs : List Char} : ReadAll [a] cs ↔ a.Reads cs := by
  simp [ReadAll]

theorem readAll_cons_one {set : CharSet} {atoms : List Atom} {cs : List Char}
    (h : ReadAll (one set :: atoms) cs) : ∃ c rest, cs = c :: rest ∧ set c = true := by
  obtain ⟨_, rest, rfl, ⟨c, rfl, hc⟩, _⟩ := h
  exact ⟨c, rest, rfl, hc⟩

theorem readAll_concat_one {set : CharSet} {atoms : List Atom} {cs : List Char}
    (h : ReadAll (atoms ++ [one set]) cs) : ∃ front c, cs = front ++ [c] ∧ set c = true := by
  obtain ⟨front, back, rfl, _, hback⟩ := readAll_append.1 h
  obtain ⟨c, rfl, hc⟩ := readAll_singleton.1 hback
  exact ⟨front, c, rfl, hc⟩

theorem readAll_run {set : CharSet} {cs : List Char} :
    ReadAll (run set) cs ↔ cs ≠ [] ∧ ∀ c ∈ cs, set c = true := by
  constructor
  · rintro ⟨_, _, rfl, ⟨c, rfl, hc⟩, _, _, rfl, hmany, rfl⟩
    exact ⟨by simp, by simpa using ⟨hc, hmany⟩⟩
  · rintro ⟨hne, hset⟩
    obtain ⟨c, cs, rfl⟩ := List.exists_cons_of_ne_nil hne
    obtain ⟨hc, hcs⟩ := List.forall_mem_cons.1 hset
    exact ⟨[c], cs, rfl, ⟨c, rfl, hc⟩, readAll_singleton.2 hcs⟩

/-- Whatever the atoms read has a character for each set that is among them. -/
theorem exists_mem_of_readAll {atoms : List Atom} {set : CharSet} (h : one set ∈ atoms)
    {cs : List Char} (hreads : ReadAll atoms cs) : ∃ c ∈ cs, set c = true := by
  induction atoms generalizing cs with
  | nil => cases h
  | cons a atoms ih =>
    obtain ⟨part, rest, rfl, ha, hrest⟩ := hreads
    rcases List.mem_cons.1 h with rfl | h
    · obtain ⟨c, rfl, hc⟩ := ha
      exact ⟨c, List.mem_cons_self, hc⟩
    · obtain ⟨c, hmem, hc⟩ := ih h hrest
      exact ⟨c, List.mem_append_right part hmem, hc⟩

theorem exists_of_forall₂ {α β : Type} {R : α → β → Prop} {as : List α} {bs : List β}
    (h : List.Forall₂ R as bs) {b : β} (hb : b ∈ bs) : ∃ a ∈ as, R a b := by
  induction h with
  | nil => cases hb
  | @cons a _ as _ hr _ ih =>
    rcases List.mem_cons.1 hb with rfl | hb
    · exact ⟨a, List.mem_cons_self, hr⟩
    · obtain ⟨a', ha', hr'⟩ := ih hb
      exact ⟨a', List.mem_cons_of_mem a ha', hr'⟩

theorem eq_of_spelling {l c : Char} (hl : l.isLower = false)
    (h : CharSet.spelling l c = true) : c = l := by
  have hs : l ≠ 's' := by
    rintro rfl
    cases hl
  have hk : l ≠ 'k' := by
    rintro rfl
    cases hl
  exact Text.eq_of_toLower (by simpa [CharSet.spelling, hs, hk] using h) hl

/-- A word in any of its spellings. -/
def Spells (w : String) (cs : List Char) : Prop :=
  List.Forall₂ (fun l c => CharSet.spelling l c = true) w.toList cs

instance (w : String) (cs : List Char) : Decidable (Spells w cs) :=
  inferInstanceAs (Decidable (List.Forall₂ _ _ _))

/-- A second spelling of a word begins where the first does, or behind the mark that ends the
first. -/
theorem Spells.eq_nil_or_behind {w : String} {cs cs' ys front back : List Char} {m : Char}
    (h : Spells w cs) (h' : Spells w cs') (hne : cs' ≠ []) (hm : m ∉ cs')
    (heq : cs ++ m :: ys = front ++ (cs' ++ back)) :
    front = [] ∨ ∃ rest, front = cs ++ m :: rest ∧ ys = rest ++ (cs' ++ back) := by
  rcases Text.before_or_behind heq hne hm with ⟨rest, hrest, -⟩ | hbehind
  · -- The two spellings are equally long.
    have hlen := congrArg List.length hrest
    rw [List.length_append, List.length_append, ← h.length_eq, ← h'.length_eq] at hlen
    exact .inl (List.eq_nil_of_length_eq_zero (by omega))
  · exact .inr hbehind

theorem readAll_word {w : String} {cs : List Char} : ReadAll (word w) cs ↔ Spells w cs := by
  rw [Spells, word]
  generalize w.toList = ls
  induction ls generalizing cs with
  | nil => exact List.forall₂_nil_left_iff.symm
  | cons l ls ih =>
    rw [List.forall₂_cons_left_iff]
    constructor
    · rintro ⟨_, rest, rfl, ⟨c, rfl, hc⟩, hrest⟩
      exact ⟨c, rest, hc, ih.1 hrest, rfl⟩
    · rintro ⟨c, rest, hc, hrest, rfl⟩
      exact ⟨[c], rest, rfl, ⟨c, rfl, hc⟩, ih.2 hrest⟩

/-- Whatever the atoms read is not empty and has characters of the set only. -/
def Fills (atoms : List Atom) (set : CharSet) : Prop :=
  ∀ ⦃cs⦄, ReadAll atoms cs → cs ≠ [] ∧ ∀ c ∈ cs, set c = true

theorem Fills.append {atoms atoms' : List Atom} {set : CharSet} (h : Fills atoms set)
    (h' : Fills atoms' set) : Fills (atoms ++ atoms') set := by
  intro cs hreads
  obtain ⟨front, back, rfl, hfront, hback⟩ := readAll_append.1 hreads
  refine ⟨fun hnil => (h hfront).1 (List.append_eq_nil_iff.1 hnil).1, fun c hc => ?_⟩
  rcases List.mem_append.1 hc with hc | hc
  · exact (h hfront).2 c hc
  · exact (h' hback).2 c hc

theorem noneOf_of_set {set : CharSet} {bad : List Char} (h : ∀ c ∈ bad, set c = false) {c : Char}
    (hc : set c = true) : CharSet.noneOf bad c = true := by
  rw [CharSet.noneOf, Bool.not_eq_true', ← Bool.not_eq_true, List.contains_iff_mem]
  intro hbad
  rw [h c hbad] at hc
  cases hc

theorem fills_run {set : CharSet} {bad : List Char} (h : ∀ c ∈ bad, set c = false) :
    Fills (run set) (CharSet.noneOf bad) := by
  intro cs hreads
  obtain ⟨hne, hset⟩ := readAll_run.1 hreads
  exact ⟨hne, fun c hc => noneOf_of_set h (hset c hc)⟩

theorem fills_word {w : String} {bad : List Char} (hw : w.toList ≠ [])
    (h : ∀ l ∈ w.toList, ∀ c ∈ bad, CharSet.spelling l c = false) :
    Fills (word w) (CharSet.noneOf bad) := by
  intro cs hreads
  have hspells := readAll_word.1 hreads
  constructor
  · rintro rfl
    exact hw (List.forall₂_nil_right_iff.1 hspells)
  · intro c hc
    obtain ⟨l, hl, hlc⟩ := exists_of_forall₂ hspells hc
    exact noneOf_of_set (h l hl) hlc

/-- Atoms read the start of the text, and behind it the rest of the atoms match. -/
def ReadsThen (atoms more : List Atom) (left : Option Char) (rest : List Char)
    (parts : List (List Char)) : Prop :=
  ∃ here then' back, parts = here ++ then' ∧ List.Forall₂ Reads atoms here ∧
    rest = here.flatten ++ back ∧ matchAll more (here.flatten.getLast?.or left) back = some then'

theorem ReadsThen.cons {a : Atom} {atoms more : List Atom} {left : Option Char}
    {part rest : List Char} {parts : List (List Char)} (ha : a.Reads part)
    (h : ReadsThen atoms more (part.getLast?.or left) rest parts) :
    ReadsThen (a :: atoms) more left (part ++ rest) (part :: parts) := by
  obtain ⟨here, then', back, rfl, hreads, rfl, hmatch⟩ := h
  refine ⟨part :: here, then', back, rfl, .cons ha hreads, by simp, ?_⟩
  rwa [List.flatten_cons, List.getLast?_append, Option.or_assoc]

theorem ReadsThen.grow {set : CharSet} {atoms more : List Atom} {left : Option Char} {c : Char}
    {part rest : List Char} {parts : List (List Char)} (hc : set c = true)
    (h : ReadsThen (many set :: atoms) more (some c) rest (part :: parts)) :
    ReadsThen (many set :: atoms) more left (c :: rest) ((c :: part) :: parts) := by
  obtain ⟨here, then', back, hparts, hreads, rfl, hmatch⟩ := h
  cases hreads with
  | @cons _ first _ here hfirst hreads =>
    obtain ⟨rfl, rfl⟩ := List.cons.inj hparts
    refine ⟨(c :: part) :: here, then', back, rfl, .cons ?_ hreads, by simp, ?_⟩
    · exact List.forall_mem_cons.2 ⟨hc, hfirst⟩
    · rwa [List.flatten_cons, List.cons_append, getLast?_cons_or]

theorem matchAll_append_reads {atoms more : List Atom} {left : Option Char} {rest : List Char}
    {parts : List (List Char)} (h : matchAll (atoms ++ more) left rest = some parts) :
    ReadsThen atoms more left rest parts := by
  induction atoms generalizing left rest parts with
  | nil => exact ⟨[], parts, rest, rfl, .nil, rfl, h⟩
  | cons a atoms ih =>
    rw [List.cons_append] at h
    cases a with
    | boundary =>
      rw [matchAll] at h
      split at h
      · obtain ⟨parts, hparts, rfl⟩ := Option.map_eq_some_iff.1 h
        exact .cons rfl (ih hparts)
      · cases h
    | one set =>
      cases rest with
      | nil =>
        rw [matchAll] at h
        cases h
      | cons c tail =>
        rw [matchAll] at h
        split at h
        next hc =>
          obtain ⟨parts, hparts, rfl⟩ := Option.map_eq_some_iff.1 h
          exact .cons ⟨c, rfl, hc⟩ (ih hparts)
        next => cases h
    | many set =>
      have hnothing : (many set).Reads [] := by simp [Reads]
      have hnone {left : Option Char} {rest : List Char} {parts : List (List Char)}
          (h : (matchAll (atoms ++ more) left rest).map ([] :: ·) = some parts) :
          ReadsThen (many set :: atoms) more left rest parts := by
        obtain ⟨parts, hparts, rfl⟩ := Option.map_eq_some_iff.1 h
        exact .cons hnothing (ih hparts)
      induction rest generalizing left parts with
      | nil =>
        rw [matchAll] at h
        exact hnone h
      | cons c tail ihmany =>
        rw [matchAll] at h
        split at h
        next hc =>
          split at h
          next hmore =>
            cases h
            exact .grow hc (ihmany hmore)
          next => exact hnone h
        next => exact hnone h

/-- A match of atoms reads the start of the text. -/
theorem matchAll_reads {atoms : List Atom} {left : Option Char} {rest : List Char}
    {parts : List (List Char)} (h : matchAll atoms left rest = some parts) :
    List.Forall₂ Reads atoms parts ∧ parts.flatten <+: rest := by
  rw [← List.append_nil atoms] at h
  obtain ⟨here, then', back, rfl, hreads, rfl, hend⟩ := matchAll_append_reads h
  rw [matchAll] at hend
  cases hend
  rw [List.append_nil]
  exact ⟨hreads, List.prefix_append _ _⟩

/-- Where a match of atoms ends in a boundary there is one behind all it has read. -/
theorem matchAll_boundary {atoms : List Atom} {left : Option Char} {rest : List Char}
    {parts : List (List Char)} (h : matchAll (atoms ++ [boundary]) left rest = some parts) :
    ∃ back, rest = parts.flatten ++ back ∧
      Text.isBoundary (parts.flatten.getLast?.or left) back.head? = true := by
  obtain ⟨here, then', back, rfl, -, rfl, hend⟩ := matchAll_append_reads h
  rw [matchAll] at hend
  split at hend
  next hboundary =>
    rw [matchAll] at hend
    cases hend
    exact ⟨back, by simp, by simpa using hboundary⟩
  next => cases hend

end Atom

/-- The parts of a hit are what the atoms of a branch can read. -/
structure Branch.Reads (b : Branch) (hit : Hit) : Prop where
  before : Atom.ReadAll b.before hit.before
  value : Atom.ReadAll b.value hit.value
  after : Atom.ReadAll b.after hit.after

/-- A branch without marks around its value reads a bare value. -/
theorem Branch.Reads.eq_bare {b : Branch} {hit : Hit} (h : b.Reads hit) (hbefore : b.before = [])
    (hafter : b.after = []) : hit = ⟨[], hit.text, []⟩ := by
  have hfront : hit.before = [] := by simpa [hbefore, Atom.ReadAll] using h.before
  have hback : hit.after = [] := by simpa [hafter, Atom.ReadAll] using h.after
  cases hit
  simp_all [Hit.text]

theorem Branch.hit_text (b : Branch) (parts : List (List Char)) :
    (b.hit parts).text = parts.flatten := by
  rw [Hit.text, hit, ← List.flatten_append, ← List.flatten_append, List.append_assoc,
    ← List.drop_drop, List.take_append_drop, List.take_append_drop]

theorem Branch.match?_reads {b : Branch} {left : Option Char} {rest : List Char} {hit : Hit}
    (h : b.match? left rest = some hit) : b.Reads hit ∧ hit.text <+: rest := by
  obtain ⟨parts, hparts, rfl⟩ := Option.map_eq_some_iff.1 h
  obtain ⟨hreads, hprefix⟩ := Atom.matchAll_reads hparts
  have hafter := List.forall₂_drop b.before.length hreads
  have hbefore := List.forall₂_take b.before.length hreads
  rw [Branch.atoms, List.append_assoc] at hbefore hafter
  rw [List.take_left] at hbefore
  rw [List.drop_left] at hafter
  have hvalue := List.forall₂_take b.value.length hafter
  have hlast := List.forall₂_drop b.value.length hafter
  rw [List.take_left] at hvalue
  rw [List.drop_left, List.drop_drop] at hlast
  refine ⟨⟨?_, ?_, ?_⟩, b.hit_text parts ▸ hprefix⟩
  · exact Atom.readAll_flatten hbefore
  · exact Atom.readAll_flatten hvalue
  · exact Atom.readAll_flatten hlast

theorem Pattern.match?_reads {p : Pattern} {left : Option Char} {rest : List Char} {hit : Hit}
    (h : p.match? left rest = some hit) : (∃ b ∈ p.branches, b.Reads hit) ∧ hit.text <+: rest := by
  obtain ⟨_, b, _, hb, hmatch, _⟩ := List.findSome?_eq_some_iff.1 h
  obtain ⟨hreads, hprefix⟩ := Branch.match?_reads hmatch
  exact ⟨⟨b, by simp [hb], hreads⟩, hprefix⟩

namespace Pattern

/-- Whatever the pattern matches has at least one character. -/
def Consumes (p : Pattern) : Prop := ∀ b ∈ p.branches, ∀ hit, b.Reads hit → hit.text ≠ []

variable {p : Pattern}

theorem consumes_of_one (h : ∀ b ∈ p.branches, ∃ set, Atom.one set ∈ b.value) : p.Consumes := by
  intro b hb hit hreads hnil
  obtain ⟨set, hset⟩ := h b hb
  simp only [Hit.text, List.append_eq_nil_iff] at hnil
  obtain ⟨c, hc, -⟩ := Atom.exists_mem_of_readAll hset hreads.value
  rw [hnil.1.2] at hc
  cases hc

/-- A match stands at its offset, counted from where the search began. -/
theorem match?_of_mem_findFrom (consumes : p.Consumes) {left : Option Char} {offset o : Nat}
    {rest : List Char} {hit : Hit} (h : (o, hit) ∈ p.findFrom left offset rest) :
    ∃ front back, rest = front ++ (hit.text ++ back) ∧ o = offset + Text.byteSize front ∧
      p.match? (front.getLast?.or left) (hit.text ++ back) = some hit := by
  fun_induction findFrom p left offset rest with
  | case1 => cases h
  | case2 left offset c tail hnone ih =>
    obtain ⟨front, back, rfl, rfl, hmatch⟩ := ih h
    refine ⟨c :: front, back, rfl, by rw [Text.byteSize_cons, Nat.add_assoc], ?_⟩
    rwa [getLast?_cons_or]
  | case3 left offset c tail found hfound ih =>
    obtain ⟨⟨b, hb, hreads⟩, more, hmore⟩ := match?_reads hfound
    rcases List.mem_cons.1 h with h | h
    · cases h
      exact ⟨[], more, hmore.symm, rfl, hmore ▸ hfound⟩
    · obtain ⟨front, back, hrest, rfl, hmatch⟩ := ih h
      obtain ⟨d, ds, htext⟩ := List.exists_cons_of_ne_nil (consumes b hb found hreads)
      rw [htext, List.cons_append, List.cons.injEq] at hmore
      obtain ⟨rfl, rfl⟩ := hmore
      rw [htext, List.length_cons, Nat.add_sub_cancel, List.drop_left] at hrest
      refine ⟨found.text ++ front, back, ?_, ?_, ?_⟩
      · rw [hrest, htext]
        simp
      · rw [Text.byteSize_append, Nat.add_assoc]
      · rw [htext, getLast?_cons_or] at hmatch
        rwa [List.getLast?_append, Option.or_assoc, htext, getLast?_cons_or]

theorem mem_findFrom (consumes : p.Consumes) {left : Option Char} {offset o : Nat}
    {rest : List Char} {hit : Hit} (h : (o, hit) ∈ p.findFrom left offset rest) :
    (∃ b ∈ p.branches, b.Reads hit) ∧
      ∃ front back, rest = front ++ (hit.text ++ back) ∧ o = offset + Text.byteSize front := by
  obtain ⟨front, back, hrest, ho, hmatch⟩ := match?_of_mem_findFrom consumes h
  exact ⟨(match?_reads hmatch).1, front, back, hrest, ho⟩

theorem mem_candidates (consumes : p.Consumes) {text : List Char} {c : Candidate}
    (h : c ∈ p.candidates text) :
    ∃ b ∈ p.branches, ∃ hit, b.Reads hit ∧ ∃ front back, text = front ++ (hit.text ++ back) ∧
      c.value = hit.value ∧ c.start = Text.byteSize (front ++ hit.before) := by
  obtain ⟨⟨offset, hit⟩, hfound, rfl⟩ := List.mem_map.1 h
  obtain ⟨⟨b, hb, hreads⟩, front, back, htext, rfl⟩ := mem_findFrom consumes hfound
  exact ⟨b, hb, hit, hreads, front, back, htext, rfl, by simp⟩

end Pattern

end EndpointCatalog
