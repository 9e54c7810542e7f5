import EndpointCatalog.Pattern.Library
import EndpointCatalog.Proofs.Pattern.Reads

/-! The marks around values. A value stands in quotes, between backticks or bare, and the
marks around it tell where it ends, so that at one place of a text there stands one value
only. Each branch of a pattern looks for values with marks of one form. -/

namespace EndpointCatalog

open CharSet

theorem readAll_quote {cs : List Char} :
    Atom.ReadAll Pattern.quote cs ↔ ∃ q ∈ Pattern.quotes, cs = [q] := by
  rw [Pattern.quote, Atom.readAll_singleton]
  simp [Atom.Reads, CharSet.oneOf, and_comm]

/-- How a call spells its target. -/
inductive CallForm
  | quoted
  | template
  | bare

namespace CallForm

/-- The characters right before a target. -/
def opening : CallForm → CharSet
  | quoted => oneOf Pattern.quotes
  | template => oneOf Pattern.backtick
  | bare => fun c => spelling '(' c || Text.isBlank c

def inside : CallForm → CharSet
  | quoted => noneOf Pattern.quotes
  | template => noneOf Pattern.backtick
  | bare => Text.isWordChar

/-- The characters right after a target. -/
def closing : CallForm → CharSet
  | quoted => oneOf Pattern.quotes
  | template => oneOf Pattern.backtick
  | bare => fun c => spelling ')' c || Text.isBlank c

theorem opening_quoted {c : Char} (h : quoted.opening c = true) : c = '\x27' ∨ c = '\x22' := by
  simpa [opening, oneOf, Pattern.quotes] using h

theorem opening_template {c : Char} (h : template.opening c = true) : c = '\x60' := by
  simpa [opening, oneOf, Pattern.backtick] using h

/-- A character opens targets of one form only. -/
theorem eq_of_opening {f g : CallForm} {c : Char} (hf : f.opening c = true)
    (hg : g.opening c = true) : f = g := by
  have hquoted (h : quoted.opening c = true) :
      template.opening c = false ∧ bare.opening c = false := by
    rcases opening_quoted h with rfl | rfl <;> decide
  have htemplate (h : template.opening c = true) : bare.opening c = false := by
    rw [opening_template h]
    decide
  cases f <;> cases g <;> simp_all

theorem inside_of_closing {f : CallForm} {c : Char} (h : f.closing c = true) :
    f.inside c = false := by
  cases f with
  | quoted => simpa [closing, inside, noneOf, oneOf] using h
  | template => simpa [closing, inside, noneOf, oneOf] using h
  | bare =>
    rcases Bool.or_eq_true_iff.1 h with h | h
    · rw [Atom.eq_of_spelling rfl h]
      decide
    · exact Text.isWordChar_of_isBlank h

/-- A value stands in a text at an offset, between marks of the form. -/
def Encloses (f : CallForm) (text : List Char) (offset : Nat) (value : List Char) : Prop :=
  ∃ front l r back, text = (front ++ [l]) ++ (value ++ r :: back) ∧
    offset = Text.byteSize (front ++ [l]) ∧ f.opening l = true ∧
    (∀ c ∈ value, f.inside c = true) ∧ f.closing r = true

/-- At one offset of a text stands one value. -/
theorem Encloses.unique {f g : CallForm} {text value value' : List Char} {offset : Nat}
    (h : f.Encloses text offset value) (h' : g.Encloses text offset value') : value = value' := by
  obtain ⟨front, l, r, back, htext, hoffset, hl, hvalue, hr⟩ := h
  obtain ⟨front', l', r', back', htext', hoffset', hl', hvalue', hr'⟩ := h'
  obtain ⟨hfront, hback⟩ :=
    Text.append_inj_of_byteSize (htext.symm.trans htext') (hoffset.symm.trans hoffset')
  obtain ⟨-, hll⟩ := List.append_inj' hfront rfl
  cases hll
  obtain rfl := eq_of_opening hl hl'
  refine (Text.append_cons_inj (P := fun c => f.inside c = false) hback ?_ ?_ ?_ ?_).1
  · simpa using hvalue
  · exact inside_of_closing hr
  · simpa using hvalue'
  · exact inside_of_closing hr'

/-- A piece of a text that has no marks lies within the values it overlaps. -/
theorem Encloses.append_of_overlap {f : CallForm} {value front m back : List Char} {offset : Nat}
    (h : f.Encloses (front ++ (m ++ back)) offset value)
    (hm : ∀ c ∈ m, f.opening c = false ∧ f.closing c = false)
    (hstart : Text.byteSize front < offset + Text.byteSize value)
    (hstop : offset < Text.byteSize (front ++ m)) :
    ∃ before l x y r after, front = before ++ l :: x ∧ value = x ++ (m ++ y) ∧
      back = y ++ r :: after ∧ f.opening l = true ∧ f.closing r = true ∧
      ∀ c ∈ value, f.inside c = true := by
  obtain ⟨before, l, r, after, htext, rfl, hl, hvalue, hr⟩ := h
  have hcut : Text.byteSize (before ++ [l]) ≤ Text.byteSize front := by
    by_contra hlt
    -- Else the mark before the value would stand in the piece.
    obtain ⟨xs, hxs, hmback⟩ := Text.append_of_byteSize_le htext (by omega)
    rw [hxs, Text.byteSize_append, Text.byteSize_append] at hstop
    obtain ⟨ys, rfl, _⟩ := Text.append_of_byteSize_le hmback.symm (by omega)
    have hlxs : l ∈ xs := by
      rcases List.eq_nil_or_concat xs with rfl | ⟨xs, z, rfl⟩
      · rw [hxs, List.append_nil] at hlt
        exact absurd (Nat.le_refl _) hlt
      · rw [List.concat_eq_append, ← List.append_assoc] at hxs
        obtain ⟨_, hz⟩ := List.append_inj' hxs rfl
        cases hz
        simp
    have hfalse := (hm l (List.mem_append_left ys hlxs)).1
    rw [hl] at hfalse
    cases hfalse
  obtain ⟨x, rfl, hx⟩ := Text.append_of_byteSize_le htext.symm hcut
  rw [← List.append_assoc] at hx
  have hend : Text.byteSize (x ++ m) ≤ Text.byteSize value := by
    by_contra hlt
    -- Else the mark behind the value would.
    obtain ⟨ys, hys, hback⟩ := Text.append_of_byteSize_le hx (by omega)
    rw [Text.byteSize_append] at hstart
    obtain ⟨zs, rfl, rfl⟩ := Text.append_of_byteSize_le hys (by omega)
    have hrys : r ∈ ys := by
      cases ys with
      | nil =>
        rw [hys, List.append_nil] at hlt
        exact absurd (Nat.le_refl _) hlt
      | cons z ys =>
        cases hback
        exact List.mem_cons_self
    have hfalse := (hm r (List.mem_append_right zs hrys)).2
    rw [hr] at hfalse
    cases hfalse
  obtain ⟨y, rfl, hy⟩ := Text.append_of_byteSize_le hx.symm hend
  exact ⟨before, l, x, y, r, after, by simp, by simp, hy, hl, hr, hvalue⟩

end CallForm

/-- Whatever the branch reads is a target of the form with its marks. -/
structure Branch.HasForm (b : Branch) (f : CallForm) : Prop where
  before {hit : Hit} : b.Reads hit → ∃ front l, hit.before = front ++ [l] ∧ f.opening l = true
  value {hit : Hit} : b.Reads hit → hit.value ≠ [] ∧ ∀ c ∈ hit.value, f.inside c = true
  after {hit : Hit} : b.Reads hit → ∃ r back, hit.after = r :: back ∧ f.closing r = true

theorem Branch.HasForm.encloses {b : Branch} {f : CallForm} (h : b.HasForm f) {hit : Hit}
    (hreads : b.Reads hit) (front back : List Char) :
    f.Encloses (front ++ (hit.text ++ back)) (Text.byteSize (front ++ hit.before)) hit.value := by
  obtain ⟨before, l, hbefore, hl⟩ := h.before hreads
  obtain ⟨r, after, hafter, hr⟩ := h.after hreads
  refine ⟨front ++ before, l, r, after ++ back, ?_, ?_, hl, (h.value hreads).2, hr⟩
  · simp [Hit.text, hbefore, hafter]
  · simp [hbefore]

theorem hasForm_marked (f : CallForm) (lead more : List Atom) {value : List Atom}
    (h : Atom.Fills value f.inside) :
    Branch.HasForm ⟨lead ++ [.one f.opening], value, .one f.closing :: more⟩ f where
  before hreads := Atom.readAll_concat_one hreads.before
  value hreads := h hreads.value
  after hreads := Atom.readAll_cons_one hreads.after

theorem hasForm_bare (lead : List Atom) :
    Branch.HasForm ⟨lead ++ [.one (spelling '(')] ++ Pattern.blanks, Atom.run Text.isWordChar,
      Pattern.blanks ++ [.one (spelling ')')]⟩ .bare where
  before hreads := by
    obtain ⟨front, back, hcs, hfront, hback⟩ := Atom.readAll_append.1 hreads.before
    have hblanks : ∀ c ∈ back, Text.isBlank c = true := Atom.readAll_singleton.1 hback
    rcases List.eq_nil_or_concat back with rfl | ⟨front', l, rfl⟩
    · obtain ⟨front', l, rfl, hl⟩ := Atom.readAll_concat_one hfront
      exact ⟨front', l, by rw [hcs, List.append_nil], by simp [CallForm.opening, hl]⟩
    · exact ⟨front ++ front', l, by rw [hcs]; simp, by simp [CallForm.opening, hblanks l]⟩
  value hreads := Atom.readAll_run.1 hreads.value
  after hreads := by
    obtain ⟨front, back, hcs, hfront, hback⟩ := Atom.readAll_append.1 hreads.after
    have hblanks : ∀ c ∈ front, Text.isBlank c = true := Atom.readAll_singleton.1 hfront
    cases front with
    | nil =>
      obtain ⟨r, rest, rfl, hr⟩ := Atom.readAll_cons_one hback
      exact ⟨r, rest, hcs, by simp [CallForm.closing, hr]⟩
    | cons r rest => exact ⟨r, rest ++ back, hcs, by simp [CallForm.closing, hblanks r]⟩

end EndpointCatalog
