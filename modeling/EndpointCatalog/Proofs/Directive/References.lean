import EndpointCatalog.Directive.Reference
import EndpointCatalog.Proofs.Distinct
import EndpointCatalog.Proofs.Pattern.Decided

/-! References to directive scripts. The run at the front of a reference takes in whatever
it can, folders of the same name and extensions among it, and gives back as much as the
folder before the last separator needs. So a reference between two characters of no path
is read whole, and what is read anywhere is a reference. -/

namespace EndpointCatalog.Directive

/-- The characters of paths. -/
def IsPathChar (c : Char) : Prop := Text.isWordChar c = true ∨ c ∈ ['.', '/', '\\', '-']

instance : DecidablePred IsPathChar := fun _ => inferInstanceAs (Decidable (_ ∨ _))

/-- A script in a folder of directives. -/
inductive IsScript : List Char → Prop
  | mk {folder name ext : List Char} {sep : Char} : Atom.Spells "directives" folder →
      sep ∈ ['/', '\\'] → name ≠ [] → (∀ c ∈ name, Text.isWordChar c = true) →
      Atom.Spells ".js" ext → IsScript (folder ++ sep :: (name ++ ext))

/-- A path to such a script. -/
inductive IsReference : List Char → Prop
  | mk {lead script : List Char} : (∀ c ∈ lead, IsPathChar c) → IsScript script →
      IsReference (lead ++ script)

/-! ### Characters -/

theorem referenceChar_iff {c : Char} : Pattern.referenceChar c = true ↔ IsPathChar c := by
  simp [Pattern.referenceChar, IsPathChar, CharSet.oneOf]

theorem IsPathChar.not_blank {c : Char} (h : IsPathChar c) : Text.isBlank c = false := by
  rcases h with h | h
  · exact Text.isBlank_of_isWordChar h
  · have hsymbols : ∀ c ∈ ['.', '/', '\\', '-'], Text.isBlank c = false := by decide
    exact hsymbols c h

theorem separator {c : Char} (h : c ∈ ['/', '\\']) : IsPathChar c ∧ Text.isWordChar c = false := by
  have hseparators : ∀ c ∈ ['/', '\\'], IsPathChar c ∧ Text.isWordChar c = false := by decide
  exact hseparators c h

/-- The letters that ASCII words are spelled in. -/
def letters : List Char := "abcdefghijklmnopqrstuvwxyz".toList

/-- The spellings of a letter are word characters, the signs for `k` and `s` among them. -/
theorem wordChar_of_spelling {l c : Char} (hl : l ∈ letters)
    (h : CharSet.spelling l c = true) : Text.isWordChar c = true := by
  have hletters : ∀ l ∈ letters, Text.isWordChar l = true ∧
      Text.isWordChar (Char.ofNat (l.toNat - 32)) = true := by decide +kernel
  simp only [CharSet.spelling, Bool.or_eq_true, Bool.and_eq_true, beq_iff_eq] at h
  rcases h with (h | ⟨-, rfl⟩) | ⟨-, rfl⟩
  · rcases Text.eq_of_toLower_eq h with rfl | rfl
    · exact (hletters _ hl).1
    · exact (hletters l hl).2
  · decide
  · decide +kernel

theorem wordChar_of_folder {folder : List Char} (h : Atom.Spells "directives" folder) :
    ∀ c ∈ folder, Text.isWordChar c = true := by
  have hfolder : ∀ l ∈ "directives".toList, l ∈ letters := by decide
  intro c hc
  obtain ⟨l, hl, hlc⟩ := Atom.exists_of_forall₂ h hc
  exact wordChar_of_spelling (hfolder l hl) hlc

/-- An extension is a dot and word characters. -/
theorem exists_dot_of_ext {ext : List Char} (h : Atom.Spells ".js" ext) :
    ∃ j s, ext = ['.', j, s] ∧ Text.isWordChar j = true ∧ Text.isWordChar s = true := by
  cases h with
  | cons hdot h =>
    cases h with
    | cons hj h =>
      cases h with
      | cons hs h =>
        cases h
        rw [Atom.eq_of_spelling (by decide) hdot]
        exact ⟨_, _, rfl, wordChar_of_spelling (by decide) hj, wordChar_of_spelling (by decide) hs⟩

/-- Behind the folder of a script there is no other separator. -/
theorem not_separator_of_file {name ext : List Char}
    (hname : ∀ c ∈ name, Text.isWordChar c = true) (hext : Atom.Spells ".js" ext) :
    ∀ c ∈ name ++ ext, IsPathChar c ∧ c ∉ ['/', '\\'] := by
  have hword {c : Char} (h : Text.isWordChar c = true) : IsPathChar c ∧ c ∉ ['/', '\\'] :=
    ⟨.inl h, fun hsep => Bool.false_ne_true ((separator hsep).2.symm.trans h)⟩
  obtain ⟨j, s, rfl, hj, hs⟩ := exists_dot_of_ext hext
  intro c hc
  simp only [List.mem_append, List.mem_cons, List.not_mem_nil, or_false] at hc
  rcases hc with hc | rfl | rfl | rfl
  · exact hword (hname c hc)
  · exact ⟨.inr (by decide), by decide⟩
  · exact hword hj
  · exact hword hs

namespace IsScript

variable {script : List Char} (h : IsScript script)
include h

theorem pathChar : ∀ c ∈ script, IsPathChar c := by
  obtain @⟨folder, name, ext, sep, hfolder, hsep, -, hname, hext⟩ := h
  intro c hc
  rcases List.mem_append.1 hc with hc | hc
  · exact .inl (wordChar_of_folder hfolder c hc)
  · rcases List.mem_cons.1 hc with rfl | hc
    · exact (separator hsep).1
    · exact (not_separator_of_file hname hext c hc).1

/-- A script ends in a letter. -/
theorem getLast? : ∃ c, script.getLast? = some c ∧ Text.isWordChar c = true := by
  obtain ⟨-, -, -, -, hext⟩ := h
  obtain ⟨j, s, rfl, -, hs⟩ := exists_dot_of_ext hext
  exact ⟨s, by simp [List.getLast?_cons], hs⟩

/-- No other script begins later within a script. -/
theorem eq_nil_of_later {script' more rest post : List Char} {b : Char}
    (h' : IsScript script') (hb : ¬ IsPathChar b)
    (hcut : script ++ b :: post = more ++ (script' ++ rest))
    (hmore : ∀ c ∈ more, IsPathChar c) : more = [] := by
  obtain @⟨folder, name, ext, sep, hfolder, hsep, -, hname, hext⟩ := h
  obtain @⟨folder', name', ext', sep', hfolder', hsep', -, -, -⟩ := h'
  have hne : folder' ≠ [] := by
    rintro rfl
    cases hfolder'
  have hmark : sep ∉ folder' := fun h =>
    Bool.false_ne_true ((separator hsep).2.symm.trans (wordChar_of_folder hfolder' _ h))
  simp only [List.append_assoc, List.cons_append] at hcut
  rcases hfolder.eq_nil_or_behind hfolder' hne hmark hcut with hmore | ⟨tail, rfl, htail⟩
  · exact hmore
  · -- The second folder would need a separator where there is none.
    have hstop : b ∉ folder' ++ [sep'] := by
      intro h
      rcases List.mem_append.1 h with h | h
      · exact hb (.inl (wordChar_of_folder hfolder' b h))
      · exact hb (List.mem_singleton.1 h ▸ (separator hsep').1)
    rw [List.append_cons folder', ← List.append_assoc name] at htail
    rcases Text.before_or_behind htail (by simp) hstop with ⟨end', hend, -⟩ | ⟨end', rfl, -⟩
    · have hmem : sep' ∈ name ++ ext := by rw [hend]; simp
      exact absurd hsep' (not_separator_of_file hname hext sep' hmem).2
    · exact absurd (hmore b (by simp)) hb

end IsScript

namespace IsReference

variable {form : List Char} (h : IsReference form)
include h

theorem pathChar : ∀ c ∈ form, IsPathChar c := by
  obtain ⟨hlead, hscript⟩ := h
  intro c hc
  rcases List.mem_append.1 hc with hc | hc
  · exact hlead c hc
  · exact hscript.pathChar c hc

/-- A reference ends in a letter. -/
theorem getLast? : ∃ c, form.getLast? = some c ∧ Text.isWordChar c = true := by
  obtain ⟨-, hscript⟩ := h
  obtain ⟨c, hlast, hc⟩ := hscript.getLast?
  exact ⟨c, by rw [List.getLast?_append, hlast, Option.some_or], hc⟩

theorem ne_nil : form ≠ [] := by
  obtain ⟨c, hlast, -⟩ := h.getLast?
  rintro rfl
  cases hlast

end IsReference

/-! ### What the search reads -/

/-- The atoms behind the run at the front of a reference. -/
def scriptAtoms : List Atom :=
  Atom.word "directives" ++ ([.one (CharSet.oneOf ['/', '\\'])] ++
    (Atom.run Text.isWordChar ++ Atom.word ".js"))

def referenceBranch : Branch :=
  ⟨[], .many Pattern.referenceChar :: (scriptAtoms ++ [.boundary]), []⟩

theorem reference_branches : Pattern.directiveReference.branches = [referenceBranch] := rfl

theorem reference_atoms : referenceBranch.atoms =
    .many Pattern.referenceChar :: (scriptAtoms ++ [.boundary]) := rfl

theorem scriptAtoms_decided : Atom.Decided scriptAtoms := by
  have hdot : ∀ c, CharSet.spelling '.' c = true → Text.isWordChar c = false := by
    intro c hc
    rw [Atom.eq_of_spelling (by decide) hc]
    decide
  exact Atom.decided_word (Atom.decided_run hdot trivial)

theorem readAll_scriptAtoms {cs : List Char} : Atom.ReadAll scriptAtoms cs ↔ IsScript cs := by
  constructor
  · intro h
    obtain ⟨folder, _, rfl, hfolder, h⟩ := Atom.readAll_append.1 h
    obtain ⟨_, _, rfl, hsep, h⟩ := Atom.readAll_append.1 h
    obtain ⟨name, ext, rfl, hname, hext⟩ := Atom.readAll_append.1 h
    obtain ⟨sep, rfl, hset⟩ := Atom.readAll_singleton.1 hsep
    obtain ⟨hne, hname⟩ := Atom.readAll_run.1 hname
    have hsep : sep ∈ ['/', '\\'] := by simpa [CharSet.oneOf] using hset
    exact @IsScript.mk folder name ext sep (Atom.readAll_word.1 hfolder) hsep hne hname
      (Atom.readAll_word.1 hext)
  · rintro @⟨folder, name, ext, sep, hfolder, hsep, hne, hname, hext⟩
    have hend : Atom.ReadAll (Atom.run Text.isWordChar ++ Atom.word ".js") (name ++ ext) :=
      Atom.readAll_append.2 ⟨name, ext, rfl, Atom.readAll_run.2 ⟨hne, hname⟩,
        Atom.readAll_word.2 hext⟩
    have hmark : Atom.ReadAll [.one (CharSet.oneOf ['/', '\\'])] [sep] :=
      Atom.readAll_singleton.2 ⟨sep, rfl, by simpa [CharSet.oneOf] using hsep⟩
    exact Atom.readAll_append.2 ⟨folder, _, rfl, Atom.readAll_word.2 hfolder,
      Atom.readAll_append.2 ⟨[sep], _, rfl, hmark, hend⟩⟩

theorem isReference_of_reads {hit : Hit} (h : referenceBranch.Reads hit) :
    IsReference hit.value := by
  obtain ⟨lead, rest, hvalue, hlead, hrest⟩ := h.value
  obtain ⟨script, bound, rfl, hscript, hbound⟩ := Atom.readAll_append.1 hrest
  obtain rfl : bound = [] := Atom.readAll_singleton.1 hbound
  rw [hvalue, List.append_nil]
  exact .mk (fun c hc => referenceChar_iff.1 (hlead c hc)) (readAll_scriptAtoms.1 hscript)

theorem reference_consumes : Pattern.directiveReference.Consumes := by
  refine Pattern.consumes_of_one fun b hb => ⟨CharSet.oneOf ['/', '\\'], ?_⟩
  obtain rfl := List.mem_singleton.1 hb
  simp

/-- What is found is a reference without a word character behind it. -/
theorem match?_reference {left : Option Char} {hit : Hit} {back : List Char}
    (h : Pattern.directiveReference.match? left (hit.text ++ back) = some hit) :
    hit = ⟨[], hit.text, []⟩ ∧ IsReference hit.text ∧
      ∀ c ∈ back.head?, Text.isWordChar c = false := by
  have hmatch : referenceBranch.match? left (hit.text ++ back) = some hit := by
    rw [Pattern.match?, reference_branches, List.findSome?_singleton] at h
    exact h
  have hreads := (Branch.match?_reads hmatch).1
  have hbare := hreads.eq_bare rfl rfl
  have href : IsReference hit.text := by
    have hvalue := isReference_of_reads hreads
    rw [hbare] at hvalue
    exact hvalue
  refine ⟨hbare, href, fun c hc => ?_⟩
  obtain ⟨parts, hparts, heq⟩ := Option.map_eq_some_iff.1 hmatch
  have htext : hit.text = parts.flatten := by rw [← heq, Branch.hit_text]
  rw [reference_atoms, ← List.cons_append] at hparts
  obtain ⟨back', hback, hboundary⟩ := Atom.matchAll_boundary hparts
  rw [htext] at hback
  obtain rfl := List.append_cancel_left hback
  obtain ⟨d, hlast, hd⟩ := href.getLast?
  rw [← htext, hlast, hc] at hboundary
  simpa [Text.isBoundary, hd] using hboundary

/-! ### What is read at a reference -/

theorem IsScript.matchAll {script : List Char} {b : Char} (h : IsScript script)
    (hb : ¬ IsPathChar b) (left : Option Char) (post : List Char) :
    ∃ parts, Atom.matchAll (scriptAtoms ++ [.boundary]) left (script ++ b :: post) = some parts ∧
      parts.flatten = script := by
  obtain ⟨c, hlast, hc⟩ := h.getLast?
  obtain ⟨parts, hreads, rfl⟩ := Atom.exists_parts (readAll_scriptAtoms.2 h)
  have hword : Text.isWordChar b = false := Bool.not_eq_true _ ▸ fun h => hb (.inl h)
  have hboundary : Text.isBoundary (parts.flatten.getLast?.or left) (b :: post).head? = true := by
    simp [hlast, Text.isBoundary, hc, hword]
  have hend : Atom.matchAll [.boundary] (parts.flatten.getLast?.or left) (b :: post) =
      some [[]] := by
    rw [Atom.matchAll, if_pos hboundary, Atom.matchAll]
    rfl
  exact ⟨parts ++ [[]], Atom.matchAll_append scriptAtoms_decided hreads hend, by simp⟩

/-- The run at the front ends before the script, as no script begins later. -/
theorem IsReference.matchAll {form : List Char} {b : Char} (h : IsReference form)
    (hb : ¬ IsPathChar b) (left : Option Char) (post : List Char) :
    ∃ parts, Atom.matchAll referenceBranch.atoms left (form ++ b :: post) = some parts ∧
      parts.flatten = form := by
  obtain @⟨lead, script, hlead, hscript⟩ := h
  obtain ⟨parts, hparts, rfl⟩ := hscript.matchAll hb (lead.getLast?.or left) post
  refine ⟨lead :: parts, ?_, rfl⟩
  rw [reference_atoms, List.append_assoc]
  refine Atom.matchAll_many_longest (fun c hc => referenceChar_iff.2 (hlead c hc)) hparts ?_
  intro more back hcut hmore hpath left
  rw [Option.eq_none_iff_forall_ne_some]
  intro parts' hparts'
  obtain ⟨here, _, rest, -, hhere, rfl, -⟩ := Atom.matchAll_append_reads hparts'
  have hscript' := readAll_scriptAtoms.1 (Atom.readAll_flatten hhere)
  exact hmore (hscript.eq_nil_of_later hscript' hb hcut
    fun c hc => referenceChar_iff.1 (hpath c hc))

theorem IsReference.match? {form : List Char} {b : Char} (h : IsReference form)
    (hb : ¬ IsPathChar b) (left : Option Char) (post : List Char) :
    ∃ hit, Pattern.directiveReference.match? left (form ++ b :: post) = some hit ∧
      hit.value = form := by
  obtain ⟨parts, hparts, hform⟩ := h.matchAll hb left post
  have hfound : Pattern.directiveReference.match? left (form ++ b :: post) =
      some (referenceBranch.hit parts) := by
    rw [Pattern.match?, reference_branches, List.findSome?_singleton, Branch.match?, hparts,
      Option.map_some]
  refine ⟨_, hfound, ?_⟩
  obtain ⟨⟨b', hb', hreads⟩, -⟩ := Pattern.match?_reads hfound
  obtain rfl := List.mem_singleton.1 hb'
  rw [congrArg Hit.value (hreads.eq_bare rfl rfl), Branch.hit_text, hform]

/-! ### References -/

theorem IsReference.mem_find {form pre post : List Char} {a b : Char} (h : IsReference form)
    (ha : ¬ IsPathChar a) (hb : ¬ IsPathChar b) :
    ∃ o hit, (o, hit) ∈ Pattern.directiveReference.find (pre ++ a :: (form ++ b :: post)) ∧
      hit.value = form := by
  obtain ⟨hit, hhit, hvalue⟩ := h.match? hb (pre ++ [a]).getLast? post
  obtain ⟨front, mid, found, hfront, hlt, hfound, hmem⟩ :=
    Pattern.exists_mem_find reference_consumes (Option.isSome_of_eq_some hhit)
  obtain ⟨-, back, hback⟩ := Pattern.match?_reads hfound
  -- No reference that begins earlier goes on over the character before this one.
  have hmid : mid = [] := by
    rw [← hback] at hfound
    obtain ⟨-, href, -⟩ := match?_reference hfound
    have hstart : mid <+: found.text :=
      List.prefix_of_prefix_length_le (List.prefix_append mid _) ⟨back, hback⟩ (Nat.le_of_lt hlt)
    exact Text.eq_nil_of_concat_eq hfront (fun c hc => href.pathChar c (hstart.subset hc)) ha
  subst hmid
  rw [List.append_nil] at hfront
  rw [← hfront, List.nil_append, hhit] at hfound
  cases hfound
  exact ⟨_, hit, by rwa [← List.append_cons] at hmem, hvalue⟩

theorem exists_mem_references {text : List Char} {o : Nat} {hit : Hit}
    (h : (o, hit) ∈ Pattern.directiveReference.find text) (hne : Text.trimChars hit.value ≠ []) :
    ∃ l ∈ references text, l.value = String.ofList (Text.trimChars hit.value) := by
  let found : Located := ⟨String.ofList (Text.trimChars hit.value), o⟩
  refine exists_mem_distinctBy (a := found) Located.value
    (List.mem_filterMap.2 ⟨(o, hit), h, ?_⟩)
  simp [found, hne]

theorem exists_mem_find_of_mem {text : List Char} {l : Located} (h : l ∈ references text) :
    ∃ hit, (l.offset, hit) ∈ Pattern.directiveReference.find text ∧
      l.value = String.ofList (Text.trimChars hit.value) := by
  obtain ⟨⟨o, hit⟩, hmem, hl⟩ := List.mem_filterMap.1 (mem_of_mem_distinctBy h)
  dsimp only at hl
  split at hl
  · cases hl
  · cases hl
    exact ⟨hit, hmem, rfl⟩

theorem pairwise_offset (text : List Char) :
    (references text).Pairwise fun l m => l.offset < m.offset := by
  refine List.Pairwise.sublist (distinctFrom_sublist _ _ _) (List.pairwise_filterMap.2 ?_)
  refine (Pattern.pairwise_findFrom reference_consumes _ _ _).imp_of_mem ?_
  rintro ⟨o, hit⟩ ⟨o', hit'⟩ hmem - hle l hl m hm
  dsimp only at hle hl hm
  have hsize : 0 < Text.byteSize hit.text := by
    obtain ⟨⟨b, hb, hreads⟩, -⟩ := Pattern.mem_findFrom reference_consumes hmem
    obtain ⟨c, cs, htext⟩ := List.exists_cons_of_ne_nil (reference_consumes b hb hit hreads)
    rw [htext, Text.byteSize_cons]
    exact Nat.add_pos_left c.utf8Size_pos _
  split at hl
  · cases hl
  · split at hm
    · cases hm
    · cases hl
      cases hm
      exact Nat.lt_of_lt_of_le (Nat.lt_add_of_pos_right hsize) hle

/-- A reference between two characters of no path is found as it is. All that is found are
references, at their places and without a word character behind them; none comes twice, and
they come from left to right. -/
theorem references_exact (text : List Char) :
    (∀ pre a form b post, text = pre ++ a :: (form ++ b :: post) → ¬ IsPathChar a →
      ¬ IsPathChar b → IsReference form → ∃ l ∈ references text, l.value = String.ofList form) ∧
    (∀ l ∈ references text, IsReference l.value.toList ∧
      ∃ front back, text = front ++ (l.value.toList ++ back) ∧ l.offset = Text.byteSize front ∧
        ∀ c ∈ back.head?, Text.isWordChar c = false) ∧
    (references text).Pairwise fun l m => l.value ≠ m.value ∧ l.offset < m.offset := by
  have htrim {form : List Char} (h : IsReference form) : Text.trimChars form = form :=
    Text.trimChars_eq_self fun c hc => (h.pathChar c hc).not_blank
  refine ⟨?_, ?_, (pairwise_distinctBy _).and (pairwise_offset text)⟩
  · rintro pre a form b post rfl ha hb hform
    obtain ⟨o, hit, hmem, rfl⟩ := hform.mem_find ha hb
    obtain ⟨l, hl, hvalue⟩ := exists_mem_references hmem (by rw [htrim hform]; exact hform.ne_nil)
    exact ⟨l, hl, by rw [hvalue, htrim hform]⟩
  · intro l hl
    obtain ⟨hit, hmem, hvalue⟩ := exists_mem_find_of_mem hl
    obtain ⟨front, back, htext, ho, hmatch⟩ :=
      Pattern.match?_of_mem_findFrom reference_consumes hmem
    obtain ⟨hbare, href, hend⟩ := match?_reference hmatch
    have hform : l.value.toList = hit.text := by
      rw [hvalue, String.toList_ofList, congrArg Hit.value hbare]
      exact htrim href
    rw [hform]
    exact ⟨href, front, back, htext, by rw [ho, Nat.zero_add], hend⟩

/-- A reference with two folders of directives and two extensions. -/
theorem nestedReference_found :
    ∃ l ∈ references "src='../directives/old.js/Directives\\new_item.JS'".toList,
      l.value = "../directives/old.js/Directives\\new_item.JS" := by
  have hform : IsReference ("../directives/old.js/".toList ++
      ("Directives".toList ++ '\\' :: ("new_item".toList ++ ".JS".toList))) :=
    .mk (by decide) (.mk (by decide) (by decide) (by decide) (by decide) (by decide))
  exact (references_exact _).1 "src=".toList '\x27' _ '\x27' [] (by decide) (by decide)
    (by decide) hform

end EndpointCatalog.Directive
