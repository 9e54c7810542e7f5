import EndpointCatalog.Proofs.Pattern.Search

/-! Matching without a choice. Where every run of characters ends at a character that the
run cannot have, the text alone decides what atoms read from a place on. A search for a
branch of this kind finds all of its occurrences, unless one begins within another. -/

namespace EndpointCatalog

namespace Atom

/-- Whatever the atoms read begins with a character that is not in the set. -/
def Stop (set : CharSet) : List Atom → Prop
  | [] => False
  | boundary :: _ => False
  | one other :: _ => ∀ c, other c = true → set c = false
  | many other :: atoms => (∀ c, other c = true → set c = false) ∧ Stop set atoms

/-- Every run is stopped by the atoms behind it. -/
def Decided : List Atom → Prop
  | [] => True
  | boundary :: _ => False
  | one _ :: atoms => Decided atoms
  | many set :: atoms => Stop set atoms ∧ Decided atoms

theorem decided_word {w : String} {atoms : List Atom} (h : Decided atoms) :
    Decided (word w ++ atoms) := by
  rw [word]
  generalize w.toList = ls
  induction ls with
  | nil => exact h
  | cons l ls ih => exact ih

theorem decided_run {set : CharSet} {atoms : List Atom} (hstop : Stop set atoms)
    (h : Decided atoms) : Decided (run set ++ atoms) := ⟨hstop, h⟩

theorem Stop.exists_cons {set : CharSet} {atoms : List Atom} (h : Stop set atoms)
    {parts : List (List Char)} (hreads : List.Forall₂ Reads atoms parts) :
    ∃ c rest, parts.flatten = c :: rest ∧ set c = false := by
  induction hreads with
  | nil => exact h.elim
  | @cons a part atoms parts ha _ ih =>
    cases a with
    | boundary => exact h.elim
    | one other =>
      obtain ⟨c, rfl, hc⟩ := ha
      exact ⟨c, parts.flatten, rfl, h c hc⟩
    | many other =>
      obtain ⟨hother, hatoms⟩ := h
      cases part with
      | nil => exact ih hatoms
      | cons c part => exact ⟨c, part ++ parts.flatten, rfl, hother c (ha c List.mem_cons_self)⟩

/-- A run goes on to the first character that it cannot have. -/
theorem matchAll_many_stopped {set : CharSet} {atoms : List Atom} {run rest : List Char}
    {left : Option Char} {parts : List (List Char)} (hrun : ∀ c ∈ run, set c = true)
    (hrest : ∀ c ∈ rest.head?, set c = false)
    (h : matchAll atoms (run.getLast?.or left) rest = some parts) :
    matchAll (many set :: atoms) left (run ++ rest) = some (run :: parts) := by
  refine matchAll_many_longest hrun h fun more back hmore hne hset => ?_
  obtain ⟨c, more, rfl⟩ := List.exists_cons_of_ne_nil hne
  have hc := hset c List.mem_cons_self
  rw [hrest c (by rw [hmore]; rfl)] at hc
  cases hc

/-- Atoms without a choice match whatever they can read, if the atoms behind them match. -/
theorem matchAll_append {atoms more : List Atom} (decided : Decided atoms)
    {parts parts' : List (List Char)} (hreads : List.Forall₂ Reads atoms parts)
    {left : Option Char} {back : List Char}
    (h : matchAll more (parts.flatten.getLast?.or left) back = some parts') :
    matchAll (atoms ++ more) left (parts.flatten ++ back) = some (parts ++ parts') := by
  induction hreads generalizing left with
  | nil => exact h
  | @cons a part atoms parts ha hatoms ih =>
    have hlast : (part ++ parts.flatten).getLast?.or left =
        parts.flatten.getLast?.or (part.getLast?.or left) := by
      rw [List.getLast?_append, Option.or_assoc]
    rw [List.flatten_cons, hlast] at h
    rw [List.flatten_cons, List.append_assoc, List.cons_append]
    cases a with
    | boundary => exact decided.elim
    | one set =>
      obtain ⟨c, rfl, hc⟩ := ha
      have hrest : matchAll (atoms ++ more) (some c) (parts.flatten ++ back) = _ := ih decided h
      rw [List.cons_append, List.nil_append, matchAll, if_pos hc, hrest]
      rfl
    | many set =>
      obtain ⟨hstop, decided⟩ := decided
      refine matchAll_many_stopped ha ?_ (ih decided h)
      obtain ⟨c, rest, hrest, hc⟩ := hstop.exists_cons hatoms
      simp [hrest, hc]

theorem matchAll_of_reads {atoms : List Atom} (decided : Decided atoms) {parts : List (List Char)}
    (hreads : List.Forall₂ Reads atoms parts) (left : Option Char) (back : List Char) :
    matchAll atoms left (parts.flatten ++ back) = some parts := by
  have h : matchAll [] (parts.flatten.getLast?.or left) back = some [] := by rw [matchAll]
  simpa using matchAll_append decided hreads h

theorem exists_parts {atoms : List Atom} {cs : List Char} (h : ReadAll atoms cs) :
    ∃ parts, List.Forall₂ Reads atoms parts ∧ parts.flatten = cs := by
  induction atoms generalizing cs with
  | nil => exact ⟨[], .nil, Eq.symm h⟩
  | cons a atoms ih =>
    obtain ⟨part, rest, rfl, ha, hrest⟩ := h
    obtain ⟨parts, hparts, rfl⟩ := ih hrest
    exact ⟨part :: parts, .cons ha hparts, rfl⟩

end Atom

theorem Branch.match?_of_reads {b : Branch} (decided : Atom.Decided b.atoms) {hit : Hit}
    (h : b.Reads hit) (left : Option Char) (back : List Char) :
    b.match? left (hit.text ++ back) = some hit := by
  obtain ⟨before, hbefore, heq⟩ := Atom.exists_parts h.before
  obtain ⟨value, hvalue, heq'⟩ := Atom.exists_parts h.value
  obtain ⟨after, hafter, heq''⟩ := Atom.exists_parts h.after
  have hreads : List.Forall₂ Atom.Reads b.atoms (before ++ value ++ after) :=
    List.rel_append (List.rel_append hbefore hvalue) hafter
  have htext : hit.text = (before ++ value ++ after).flatten := by
    rw [Hit.text, ← heq, ← heq', ← heq'', List.flatten_append, List.flatten_append]
  have hhit : b.hit (before ++ value ++ after) = hit := by
    rw [Branch.hit, hbefore.length_eq, hvalue.length_eq, List.append_assoc, List.take_left,
      List.drop_left, List.take_left, ← List.drop_drop, List.drop_left, List.drop_left, heq, heq',
      heq'']
  rw [Branch.match?, htext, Atom.matchAll_of_reads decided hreads, Option.map_some, hhit]

/-- No occurrence of the branch begins within another one. -/
def Branch.Apart (b : Branch) : Prop :=
  ∀ ⦃hit hit' : Hit⦄, b.Reads hit → b.Reads hit' → ∀ ⦃mid back back' : List Char⦄,
    hit.text ++ back = mid ++ (hit'.text ++ back') → mid.length < hit.text.length → mid = []

/-- If no occurrence begins within another one, a search finds all there are. -/
theorem Pattern.mem_find_iff {p : Pattern} {b : Branch} (hp : p.branches = [b])
    (consumes : p.Consumes) (decided : Atom.Decided b.atoms) (apart : b.Apart) {text : List Char}
    {o : Nat} {hit : Hit} :
    (o, hit) ∈ p.find text ↔
      b.Reads hit ∧ ∃ front back, text = front ++ (hit.text ++ back) ∧ o = Text.byteSize front := by
  have hmatch {hit : Hit} (h : b.Reads hit) (left : Option Char) (back : List Char) :
      p.match? left (hit.text ++ back) = some hit := by
    rw [match?, hp, List.findSome?_cons, Branch.match?_of_reads decided h]
  constructor
  · intro h
    obtain ⟨⟨b', hb', hreads⟩, front, back, htext, ho⟩ := mem_findFrom consumes h
    rw [hp, List.mem_singleton] at hb'
    exact ⟨hb' ▸ hreads, front, back, htext, by rw [ho, Nat.zero_add]⟩
  · rintro ⟨hreads, front, back, rfl, rfl⟩
    obtain ⟨front', mid, found, rfl, hlt, hfound, hmem⟩ := exists_mem_find consumes
      (Option.isSome_of_eq_some (hmatch hreads front.getLast? back))
    obtain ⟨⟨b', hb', hreads'⟩, more, hmore⟩ := match?_reads hfound
    rw [hp, List.mem_singleton] at hb'
    obtain rfl := apart (hb' ▸ hreads') hreads hmore hlt
    rw [List.nil_append, hmatch hreads] at hfound
    cases hfound
    rwa [List.append_nil] at hmem ⊢

end EndpointCatalog
