import EndpointCatalog.Proofs.Extract.Forms
import EndpointCatalog.Proofs.Extract.Located
import EndpointCatalog.Proofs.Extract.Reconciled

/-! The targets of calls. A call spells its target in quotes, between backticks or bare:
at one place of a text there is one target only, whichever patterns find it. -/

namespace EndpointCatalog

open CharSet

theorem redirects_hasForm {p : Pattern} (hp : p ∈ Pattern.redirects) {b : Branch}
    (hb : b ∈ p.branches) : ∃ f, b.HasForm f := by
  simp only [Pattern.redirects, List.mem_cons, List.not_mem_nil, or_false] at hp
  rcases hp with rfl | rfl | rfl | rfl | rfl <;> cases List.mem_singleton.1 hb
  · exact ⟨.quoted, hasForm_marked .quoted Pattern.call (Pattern.blanks ++ Atom.word ")")
      (Atom.fills_run (by decide))⟩
  · exact ⟨.quoted, hasForm_marked .quoted Pattern.call (Pattern.blanks ++ Atom.word ",")
      (Atom.fills_run (by decide))⟩
  · exact ⟨.template, hasForm_marked .template Pattern.call (Atom.word ")")
      (Atom.fills_run (by decide))⟩
  · exact ⟨.bare, hasForm_bare (Atom.word "$state.go")⟩
  · exact ⟨.quoted, hasForm_marked .quoted (Pattern.call ++ Pattern.blanks) _
      (Atom.fills_run (by decide))⟩

theorem redirects_consumes {p : Pattern} (hp : p ∈ Pattern.redirects) : p.Consumes :=
  (Pattern.BuiltIn.of_redirect hp).consumes

theorem encloses_of_mem_candidates {text : List Char} {c : Candidate}
    (h : c ∈ Extract.candidates Pattern.redirects text) :
    ∃ f : CallForm, f.Encloses text c.start c.value := by
  obtain ⟨p, hp, hc⟩ := List.mem_flatMap.1 (List.mem_filter.1 h).1
  obtain ⟨b, hb, hit, hreads, front, back, rfl, hvalue, hstart⟩ :=
    Pattern.mem_candidates (redirects_consumes hp) hc
  obtain ⟨f, hf⟩ := redirects_hasForm hp hb
  exact ⟨f, hvalue ▸ hstart ▸ hf.encloses hreads front back⟩

/-- Two calls at one place have the same target. -/
theorem value_eq_of_start_eq {text : List Char} {c d : Candidate}
    (hc : c ∈ Extract.candidates Pattern.redirects text)
    (hd : d ∈ Extract.candidates Pattern.redirects text) (h : c.start = d.start) :
    c.value = d.value := by
  obtain ⟨f, hf⟩ := encloses_of_mem_candidates hc
  obtain ⟨g, hg⟩ := encloses_of_mem_candidates hd
  exact hf.unique (h ▸ hg)

namespace Extract

/-- The calls in a text, each with its target where the target starts; blank targets do
not count. -/
def calls (text : List Char) : List Located := trimmed (candidates Pattern.redirects text)

theorem mem_redirects_iff {text : List Char} {l : Located} :
    l ∈ redirects text ↔ IsFirst (calls text) l := mem_locate_iff

theorem eq_of_offset_eq {text : List Char} {l m : Located} (hl : l ∈ calls text)
    (hm : m ∈ calls text) (h : l.offset = m.offset) : l = m := by
  obtain ⟨c, hc, hcl⟩ := List.mem_filterMap.1 hl
  obtain ⟨d, hd, hdm⟩ := List.mem_filterMap.1 hm
  dsimp only at hcl hdm
  split at hcl
  · cases hcl
  · split at hdm
    · cases hdm
    · cases hcl
      cases hdm
      have hstart : c.start = d.start := h
      rw [value_eq_of_start_eq hc hd hstart, hstart]

end Extract

end EndpointCatalog
