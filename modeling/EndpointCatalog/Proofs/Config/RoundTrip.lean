import EndpointCatalog.Config
import EndpointCatalog.Proofs.Files.Changes
import EndpointCatalog.Proofs.Text.Lines
import EndpointCatalog.Proofs.Toml.Document

/-! A configuration that has been saved. Its text is read as the same configuration, whatever
characters its paths and its suffix have, and where a file can be written at all, saving and
loading gives it back. -/

namespace EndpointCatalog.Config

open Toml

/-! ### The text -/

/-- The table that the text of a configuration spells. -/
def fields (c : Config) : Fields :=
  (c.root.map fun s => ("root", Value.string s)).toList ++
    (c.directiveRoot.map fun s => ("directive_root", Value.string s)).toList ++
      [("file_suffix", .string c.fileSuffix),
        ("lowercase_directives", .boolean c.lowercaseDirectives),
        ("redirect_policy", .string c.policy.name), ("batched", .boolean c.batched)]

theorem bareKey_of_mem {key : String} (h : key ∈ "scan" :: keys) : BareKey key := by
  have hall : ∀ key ∈ "scan" :: keys,
      key.toList ≠ [] ∧ ∀ c ∈ key.toList, isBareKey c = true := by
    decide +kernel
  exact ⟨(hall key h).1, (hall key h).2⟩

theorem lines_line (key : String) {text : String} {v : Value} (hkey : key ∈ keys)
    (hv : Spells text v) : Lines (line key text).toList [(key, v)] := by
  have hline : (line key text).toList =
      key.toList ++ ' ' :: '=' :: ' ' :: (text.toList ++ '\n' :: []) := by
    simp [line]
  rw [hline]
  exact .cons (bareKey_of_mem (List.mem_cons_of_mem _ hkey)) hv .nil

theorem lines_optionalLine (key : String) (hkey : key ∈ keys) (value : Option String) :
    Lines (optionalLine key value).toList (value.map fun s => (key, Value.string s)).toList := by
  cases value with
  | none => exact .nil
  | some s => exact lines_line key hkey (spells_string s)

theorem nodup_fields (c : Config) : (c.fields.map Prod.fst).Nodup := by
  obtain ⟨root, directiveRoot, _, _, _, _⟩ := c
  cases root <;> cases directiveRoot <;> simp [fields]

theorem lines_fields (c : Config) : ∃ lines, Lines lines c.fields ∧
    c.text.toList = '[' :: ("scan".toList ++ ']' :: '\n' :: lines) := by
  have hroot := lines_optionalLine "root" (by decide) c.root
  have hdirective := lines_optionalLine "directive_root" (by decide) c.directiveRoot
  have hsuffix := lines_line "file_suffix" (by decide) (spells_string c.fileSuffix)
  have hlower := lines_line "lowercase_directives" (by decide)
    (spells_boolean c.lowercaseDirectives)
  have hpolicy := lines_line "redirect_policy" (by decide) (spells_string c.policy.name)
  have hbatched := lines_line "batched" (by decide) (spells_boolean c.batched)
  refine ⟨_, (hroot.append hdirective).append
    (hsuffix.append (hlower.append (hpolicy.append hbatched))), ?_⟩
  simp [text, boolText, String.toList_append]

theorem read_text (c : Config) :
    Toml.read c.text.toList = some [("scan", .table .header c.fields)] := by
  obtain ⟨lines, hlines, htext⟩ := c.lines_fields
  rw [htext]
  exact read_table (bareKey_of_mem List.mem_cons_self) hlines c.nodup_fields

theorem setFields_fields (c : Config) : standard.setFields c.fields = some c := by
  obtain ⟨root, directiveRoot, suffix, lowercase, policy, batched⟩ := c
  cases root <;> cases directiveRoot <;> cases policy <;> rfl

theorem parse_text (c : Config) : parse c.text.toList = some c := by
  rw [parse, read_text, Option.bind_some]
  exact c.setFields_fields

/-! ### The file -/

theorem load_of_read {c : Config} {p : Path} {t : FileTree}
    (h : t.read p = .ok (Text.Utf8.encode c.text.toList)) : load p t = .ok c := by
  obtain ⟨loc, hresolve⟩ := FileTree.read_eq_ok.1 h
  have hpresent : t.isPresent p = true := FileTree.isPresent_iff.2 ⟨loc, _, hresolve⟩
  have htext : t.readText p = .ok c.text := by
    simp [FileTree.readText, h, Text.Utf8.decode?_encode]
  simp [load, hpresent, htext, c.parse_text]

theorem load_of_save {c : Config} {p : Path} {t t' : FileTree}
    (h : (save p c).run t = .ok () t') : load p t' = .ok c := by
  obtain ⟨loc, hresolve⟩ := FileTree.resolve_of_write h
  exact load_of_read (FileTree.read_eq_ok.2 ⟨loc, hresolve⟩)

/-- A configuration that is saved is loaded again as it was, and whether it can be saved is up
to the path and the files alone. -/
theorem save_load_iff (c : Config) (p : Path) (t : FileTree) :
    (∃ t', (save p c).run t = .ok () t' ∧ load p t' = .ok c) ↔ t.Writable p := by
  rw [← FileTree.write_ok_iff (Text.Utf8.encode c.text.toList)]
  exact ⟨fun ⟨t', h, _⟩ => ⟨t', h⟩, fun ⟨t', h⟩ => ⟨t', h, load_of_save h⟩⟩

end EndpointCatalog.Config
