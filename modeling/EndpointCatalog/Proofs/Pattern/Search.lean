import EndpointCatalog.Pattern.Library
import EndpointCatalog.Proofs.Pattern.Reads

/-! What a search is bound to find. A run of characters at the end of a pattern is read to
its end, and wherever a pattern matches in a text, the search for it has a match that
begins there or that began before and goes beyond. A loose route is found wherever it
stands, and read to its end. -/

namespace EndpointCatalog

namespace Atom

/-! ### Words and runs -/

theorem spells_iff {w : String} (h : ∀ l ∈ w.toList, l ≠ 's' ∧ l ≠ 'k') {cs : List Char} :
    Spells w cs ↔ cs.map Char.toLower = w.toList := by
  rw [Spells]
  generalize w.toList = ls at h ⊢
  induction ls generalizing cs with
  | nil => cases cs <;> simp
  | cons l ls ih =>
    obtain ⟨⟨hs, hk⟩, hls⟩ := List.forall_mem_cons.1 h
    cases cs with
    | nil => simp
    | cons c cs =>
      rw [List.forall₂_cons, ih hls, List.map_cons, List.cons.injEq]
      simp [CharSet.spelling, hs, hk]

theorem matchAll_word {ls : List Char} {atoms : List Atom} {left : Option Char}
    {rest : List Char} {parts : List (List Char)} :
    matchAll (ls.map (fun l => .one (CharSet.spelling l)) ++ atoms) left rest = some parts ↔
      ∃ cs more parts', rest = cs ++ more ∧
        List.Forall₂ (fun l c => CharSet.spelling l c = true) ls cs ∧
        matchAll atoms (cs.getLast?.or left) more = some parts' ∧
        parts = cs.map ([·]) ++ parts' := by
  induction ls generalizing left rest parts with
  | nil => simp
  | cons l ls ih =>
    rw [List.map_cons, List.cons_append]
    constructor
    · intro h
      cases rest with
      | nil =>
        rw [matchAll] at h
        cases h
      | cons c tail =>
        rw [matchAll] at h
        split at h
        next hc =>
          obtain ⟨_, htail, rfl⟩ := Option.map_eq_some_iff.1 h
          obtain ⟨cs, more, parts', rfl, hcs, hmatch, rfl⟩ := ih.1 htail
          exact ⟨c :: cs, more, parts', rfl, .cons hc hcs, by rwa [getLast?_cons_or], rfl⟩
        next => cases h
    · rintro ⟨_, more, parts', rfl, hcs, hmatch, rfl⟩
      cases hcs with
      | @cons _ c _ cs hc hcs =>
        rw [getLast?_cons_or] at hmatch
        rw [List.cons_append, matchAll, if_pos hc, ih.2 ⟨cs, more, parts', rfl, hcs, hmatch, rfl⟩]
        rfl

theorem matchAll_many (set : CharSet) (left : Option Char) (rest : List Char) :
    matchAll [.many set] left rest = some [rest.takeWhile set] := by
  induction rest generalizing left with
  | nil =>
    rw [matchAll, matchAll]
    rfl
  | cons c tail ih =>
    rw [matchAll]
    split
    next hc => rw [ih, List.takeWhile_cons_of_pos hc]
    next hc =>
      rw [matchAll, List.takeWhile_cons_of_neg hc]
      rfl

/-- If every part of the text that a run can read leaves atoms that do not match, there is no
match. -/
theorem matchAll_many_eq_none {set : CharSet} {atoms : List Atom} {left : Option Char}
    {rest : List Char} (h : ∀ run back, rest = run ++ back → (∀ c ∈ run, set c = true) →
      matchAll atoms (run.getLast?.or left) back = none) :
    matchAll (.many set :: atoms) left rest = none := by
  induction rest generalizing left with
  | nil =>
    have hnone : matchAll atoms left [] = none := h [] [] rfl (by simp)
    rw [matchAll, hnone]
    rfl
  | cons c tail ih =>
    have hnone : matchAll atoms left (c :: tail) = none := h [] (c :: tail) rfl (by simp)
    rw [matchAll]
    split
    next hc =>
      rw [ih, hnone]
      · rfl
      · intro run back htail hrun
        have hmore := h (c :: run) back (by rw [htail]; rfl) (List.forall_mem_cons.2 ⟨hc, hrun⟩)
        rwa [getLast?_cons_or] at hmore
    next =>
      rw [hnone]
      rfl

/-- A run goes as far as it can with the atoms behind it still matching. -/
theorem matchAll_many_longest {set : CharSet} {atoms : List Atom} {run rest : List Char}
    {left : Option Char} {parts : List (List Char)} (hrun : ∀ c ∈ run, set c = true)
    (h : matchAll atoms (run.getLast?.or left) rest = some parts)
    (longest : ∀ more back, rest = more ++ back → more ≠ [] → (∀ c ∈ more, set c = true) →
      ∀ left, matchAll atoms left back = none) :
    matchAll (.many set :: atoms) left (run ++ rest) = some (run :: parts) := by
  induction run generalizing left with
  | nil =>
    have hmatch : matchAll atoms left rest = some parts := h
    cases rest with
    | nil =>
      rw [List.nil_append, matchAll, hmatch]
      rfl
    | cons c tail =>
      rw [List.nil_append, matchAll]
      split
      next hc =>
        rw [matchAll_many_eq_none, hmatch]
        · rfl
        · intro run back htail hrun
          exact longest (c :: run) back (by rw [htail]; rfl) (by simp)
            (List.forall_mem_cons.2 ⟨hc, hrun⟩) _
      next =>
        rw [hmatch]
        rfl
  | cons c run ih =>
    obtain ⟨hc, hrun⟩ := List.forall_mem_cons.1 hrun
    rw [getLast?_cons_or] at h
    rw [List.cons_append, matchAll, if_pos hc, ih hrun h]

theorem matchAll_run {set : CharSet} {left : Option Char} {rest : List Char}
    {parts : List (List Char)} :
    matchAll (run set) left rest = some parts ↔
      ∃ c tail, rest = c :: tail ∧ set c = true ∧ parts = [[c], tail.takeWhile set] := by
  cases rest with
  | nil =>
    rw [run, matchAll]
    simp
  | cons c tail =>
    rw [run, matchAll, matchAll_many, Option.map_some]
    constructor
    · intro h
      split at h
      next hc =>
        cases h
        exact ⟨c, tail, rfl, hc, rfl⟩
      next => cases h
    · rintro ⟨_, _, ⟨⟩, hc, rfl⟩
      rw [if_pos hc]

/-- A word and then a run of characters, which goes as far as it can. -/
def ReadsRoute (w : String) (set : CharSet) (rest route : List Char) : Prop :=
  ∃ lead c tail, rest = lead ++ c :: tail ∧ Spells w lead ∧ set c = true ∧
    route = lead ++ (c :: tail).takeWhile set

theorem flatten_map_singleton {α : Type} (as : List α) : (as.map ([·])).flatten = as := by
  rw [← List.flatMap_def, List.flatMap_singleton']

theorem matchAll_word_run {w : String} {set : CharSet} {left : Option Char}
    {rest route : List Char} :
    (∃ parts, matchAll (word w ++ run set) left rest = some parts ∧ parts.flatten = route) ↔
      ReadsRoute w set rest route := by
  constructor
  · rintro ⟨parts, h, rfl⟩
    obtain ⟨lead, _, _, rfl, hlead, hrun, rfl⟩ := matchAll_word.1 h
    obtain ⟨c, tail, rfl, hc, rfl⟩ := matchAll_run.1 hrun
    exact ⟨lead, c, tail, rfl, hlead, hc, by simp [hc, flatten_map_singleton]⟩
  · rintro ⟨lead, c, tail, rfl, hlead, hc, rfl⟩
    refine ⟨lead.map ([·]) ++ [[c], tail.takeWhile set], matchAll_word.2 ?_, ?_⟩
    · exact ⟨lead, c :: tail, _, rfl, hlead, matchAll_run.2 ⟨c, tail, rfl, hc, rfl⟩, rfl⟩
    · simp [hc, flatten_map_singleton]

end Atom

namespace Pattern

variable {p : Pattern}

theorem exists_mem_findFrom (consumes : p.Consumes) {left : Option Char} {offset : Nat}
    {rest front back : List Char} (hrest : rest = front ++ back)
    (h : (p.match? (front.getLast?.or left) back).isSome) :
    ∃ front' mid hit, front = front' ++ mid ∧ mid.length < hit.text.length ∧
      p.match? (front'.getLast?.or left) (mid ++ back) = some hit ∧
      (offset + Text.byteSize front', hit) ∈ p.findFrom left offset rest := by
  fun_induction findFrom p left offset rest generalizing front with
  | case1 left offset =>
    obtain ⟨rfl, rfl⟩ := List.append_eq_nil_iff.1 hrest.symm
    obtain ⟨hit, hhit⟩ := Option.isSome_iff_exists.1 h
    obtain ⟨⟨b, hb, hreads⟩, hprefix⟩ := match?_reads hhit
    exact absurd (List.prefix_nil.1 hprefix) (consumes b hb hit hreads)
  | case2 left offset c tail hnone ih =>
    cases front with
    | nil =>
      rw [List.nil_append] at hrest
      rw [← hrest] at h
      simp [hnone] at h
    | cons d front =>
      rw [List.cons_append, List.cons.injEq] at hrest
      obtain ⟨rfl, hrest⟩ := hrest
      rw [getLast?_cons_or] at h
      obtain ⟨front', mid, hit, rfl, hlt, hmatch, hmem⟩ := ih hrest h
      refine ⟨c :: front', mid, hit, rfl, hlt, ?_, ?_⟩
      · rwa [getLast?_cons_or]
      · rwa [Text.byteSize_cons, ← Nat.add_assoc]
  | case3 left offset c tail found hfound ih =>
    obtain ⟨⟨b, hb, hreads⟩, hprefix⟩ := match?_reads hfound
    rcases Nat.lt_or_ge front.length found.text.length with hlt | hge
    · exact ⟨[], front, found, rfl, hlt, hrest ▸ hfound, List.mem_cons_self⟩
    · -- The place lies behind the match that was found, where the search goes on.
      obtain ⟨front, rfl⟩ :=
        List.prefix_of_prefix_length_le hprefix (hrest ▸ List.prefix_append front back) hge
      obtain ⟨d, ds, htext⟩ := List.exists_cons_of_ne_nil (consumes b hb found hreads)
      have hdrop : tail.drop (found.text.length - 1) = front ++ back := by
        rw [htext, List.append_assoc, List.cons_append, List.cons.injEq] at hrest
        rw [htext, hrest.2]
        simp
      have hlast (cs : List Char) : (found.text ++ cs).getLast?.or left =
          cs.getLast?.or (found.text.getLast?.or (some c)) := by
        rw [List.getLast?_append, Option.or_assoc, htext, getLast?_cons_or, getLast?_cons_or]
      rw [hlast] at h
      obtain ⟨front', mid, hit, rfl, hlt, hmatch, hmem⟩ := ih hdrop h
      refine ⟨found.text ++ front', mid, hit, by rw [List.append_assoc], hlt, ?_, ?_⟩
      · rwa [hlast]
      · rw [Text.byteSize_append, ← Nat.add_assoc]
        exact List.mem_cons_of_mem _ hmem

theorem exists_mem_find (consumes : p.Consumes) {front back : List Char}
    (h : (p.match? front.getLast? back).isSome) :
    ∃ front' mid hit, front = front' ++ mid ∧ mid.length < hit.text.length ∧
      p.match? front'.getLast? (mid ++ back) = some hit ∧
      (Text.byteSize front', hit) ∈ p.find (front ++ back) := by
  have hsome : (p.match? (front.getLast?.or none) back).isSome := by rwa [Option.or_none]
  obtain ⟨front', mid, hit, hfront, hlt, hmatch, hmem⟩ :=
    exists_mem_findFrom consumes (Eq.refl (front ++ back)) hsome
  rw [Option.or_none] at hmatch
  exact ⟨front', mid, hit, hfront, hlt, hmatch, Nat.zero_add (Text.byteSize front') ▸ hmem⟩

/-- Matches are found from left to right, each behind the one before it. -/
theorem pairwise_findFrom (consumes : p.Consumes) (left : Option Char) (offset : Nat)
    (rest : List Char) : (p.findFrom left offset rest).Pairwise
      fun a b => a.1 + Text.byteSize a.2.text ≤ b.1 := by
  fun_induction findFrom p left offset rest with
  | case1 => exact .nil
  | case2 left offset c tail hnone ih => exact ih
  | case3 left offset c tail found hfound ih =>
    refine .cons (fun b hb => ?_) ih
    obtain ⟨-, front, back, -, hb⟩ := mem_findFrom consumes hb
    rw [hb]
    exact Nat.le_add_right _ _

/-! ### Steps of a search -/

/-- The matches behind the front of a text, of a search that has come to its end. -/
def findAfter (p : Pattern) (front rest : List Char) : List (Nat × Hit) :=
  p.findFrom front.getLast? (Text.byteSize front) rest

/-- No match begins within a part of a text. -/
def Idle (p : Pattern) (part rest : List Char) : Prop :=
  ∀ cs, cs <:+ part → cs ≠ [] → ∀ left, p.match? left (cs ++ rest) = none

theorem findAfter_of_match? {front back : List Char} {hit : Hit}
    (h : p.match? front.getLast? (hit.text ++ back) = some hit) (hne : hit.text ≠ []) :
    p.findAfter front (hit.text ++ back) =
      (Text.byteSize front, hit) :: p.findAfter (front ++ hit.text) back := by
  obtain ⟨c, cs, htext⟩ := List.exists_cons_of_ne_nil hne
  rw [findAfter, findAfter, List.getLast?_append, Text.byteSize_append]
  rw [htext, List.cons_append] at h ⊢
  rw [findFrom, h]
  simp only [htext, List.length_cons, Nat.add_sub_cancel, List.drop_left, getLast?_cons_or]

/-- Where no match begins the search goes on. -/
theorem findAfter_of_idle {front part rest : List Char} (h : p.Idle part rest) :
    p.findAfter front (part ++ rest) = p.findAfter (front ++ part) rest := by
  induction part generalizing front with
  | nil => rw [List.append_nil, List.nil_append]
  | cons c part ih =>
    have hpart : p.Idle part rest := fun cs hcs => h cs (hcs.trans (List.suffix_cons c part))
    have hnone : p.match? front.getLast? (c :: (part ++ rest)) = none :=
      h (c :: part) (List.suffix_refl _) (List.cons_ne_nil c part) front.getLast?
    rw [List.append_cons front, ← ih hpart, List.cons_append, findAfter, findFrom, hnone, findAfter,
      List.getLast?_concat, Text.byteSize_append, Text.byteSize_cons, Text.byteSize_nil,
      Nat.add_zero]

/-! ### Loose routes -/

section Loose

variable {set : CharSet} {left : Option Char} {rest route : List Char}

theorem loose_match? (hp : p.branches = looseRoute set) {hit : Hit}
    (h : p.match? left rest = some hit) : hit = ⟨[], hit.text, []⟩ ∧
      ∃ w ∈ ["/api/", "api/"], Atom.ReadsRoute w set rest hit.text := by
  obtain ⟨_, b, _, hb, hmatch, _⟩ := List.findSome?_eq_some_iff.1 h
  have hmem : b ∈ looseRoute set := by simp [← hp, hb]
  have hreads := (Branch.match?_reads hmatch).1
  obtain ⟨parts, hparts, rfl⟩ := Option.map_eq_some_iff.1 hmatch
  rcases List.mem_cons.1 hmem with rfl | hmem
  · refine ⟨hreads.eq_bare rfl rfl, "/api/", List.mem_cons_self, ?_⟩
    rw [Branch.atoms, List.nil_append, List.append_nil] at hparts
    exact Atom.matchAll_word_run.1 ⟨parts, hparts, (Branch.hit_text _ parts).symm⟩
  · obtain rfl := List.mem_singleton.1 hmem
    refine ⟨hreads.eq_bare rfl rfl, "api/", List.mem_cons_of_mem _ List.mem_cons_self, ?_⟩
    rw [Branch.atoms, List.nil_append, List.append_nil, Atom.matchAll] at hparts
    split at hparts
    · obtain ⟨parts', hparts', rfl⟩ := Option.map_eq_some_iff.1 hparts
      exact Atom.matchAll_word_run.1 ⟨parts', hparts', (Branch.hit_text _ ([] :: parts')).symm⟩
    · cases hparts

theorem loose_isSome (hp : p.branches = looseRoute set)
    (h : Atom.ReadsRoute "/api/" set rest route ∨
      Text.isBoundary left rest.head? = true ∧ Atom.ReadsRoute "api/" set rest route) :
    (p.match? left rest).isSome := by
  have hword {w : String} (hw : Atom.ReadsRoute w set rest route) :
      (Atom.matchAll (Atom.word w ++ Atom.run set) left rest).isSome := by
    obtain ⟨parts, hparts, _⟩ := Atom.matchAll_word_run.2 hw
    exact Option.isSome_of_eq_some hparts
  rw [match?, hp, List.findSome?_isSome_iff]
  rcases h with h | ⟨hboundary, h⟩
  · refine ⟨_, List.mem_cons_self, ?_⟩
    rw [Branch.match?, Option.isSome_map, Branch.atoms, List.nil_append, List.append_nil]
    exact hword h
  · refine ⟨_, List.mem_cons_of_mem _ List.mem_cons_self, ?_⟩
    rw [Branch.match?, Option.isSome_map, Branch.atoms, List.nil_append, List.append_nil,
      Atom.matchAll, if_pos hboundary, Option.isSome_map]
    exact hword h

theorem loose_consumes (hp : p.branches = looseRoute set) : p.Consumes := by
  refine consumes_of_one fun b hb => ⟨set, ?_⟩
  rw [hp] at hb
  rcases List.mem_cons.1 hb with rfl | hb
  · exact List.mem_append_right _ List.mem_cons_self
  · obtain rfl := List.mem_singleton.1 hb
    exact List.mem_cons_of_mem _ (List.mem_append_right _ List.mem_cons_self)

end Loose

end Pattern

end EndpointCatalog
