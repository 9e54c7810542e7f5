import EndpointCatalog.Proofs.Toml.Strings
import EndpointCatalog.Toml.Document

/-! Documents of one table. A header, and then a line for each key of the table with its value,
are read as that table. -/

namespace EndpointCatalog.Toml

/-! ### Blanks and keys -/

theorem skipBlanks_cons {c : Char} (h : isInlineBlank c = false) (cs : List Char) :
    skipBlanks (c :: cs) = c :: cs :=
  List.dropWhile_cons_of_neg (by simp [h])

theorem skipBlanks_space (cs : List Char) : skipBlanks (' ' :: cs) = skipBlanks cs := rfl

theorem endLine_lineEnd (rest : List Char) : endLine ('\n' :: rest) = some rest := rfl

theorem isInlineBlank_of_isBareKey {c : Char} (h : isBareKey c = true) :
    isInlineBlank c = false := by
  rw [isInlineBlank, Bool.or_eq_false_iff, beq_eq_false_iff_ne, beq_eq_false_iff_ne]
  constructor <;> rintro rfl <;> cases h

/-- A key that is written without quotes. -/
structure BareKey (key : String) : Prop where
  ne_nil : key.toList ≠ []
  bare : ∀ c ∈ key.toList, isBareKey c = true

namespace BareKey

variable {key : String}

theorem exists_cons (h : BareKey key) : ∃ c cs, key.toList = c :: cs ∧ isBareKey c = true := by
  obtain ⟨c, cs, hcs⟩ := List.exists_cons_of_ne_nil h.ne_nil
  exact ⟨c, cs, hcs, h.bare c (hcs ▸ List.mem_cons_self)⟩

theorem skipBlanks_append (h : BareKey key) (rest : List Char) :
    skipBlanks (key.toList ++ rest) = key.toList ++ rest := by
  obtain ⟨c, cs, hcs, hc⟩ := h.exists_cons
  rw [hcs, List.cons_append, skipBlanks_cons (isInlineBlank_of_isBareKey hc)]

theorem readKeyPiece_append (h : BareKey key) {c : Char} (hc : isBareKey c = false)
    (rest : List Char) :
    readKeyPiece (key.toList ++ c :: rest) = some (key, c :: rest) := by
  have htake : (key.toList ++ c :: rest).takeWhile isBareKey = key.toList := by
    rw [List.takeWhile_append_of_pos h.bare, List.takeWhile_cons_of_neg (by simp [hc]),
      List.append_nil]
  have hdrop : (key.toList ++ c :: rest).dropWhile isBareKey = c :: rest := by
    rw [List.dropWhile_append_of_pos h.bare, List.dropWhile_cons_of_neg (by simp [hc])]
  simp only [readKeyPiece]
  rw [htake, hdrop, if_neg (by simpa using h.ne_nil), String.ofList_toList]

/-- A key of one piece, with what stands behind it and behind the blanks there. -/
theorem readKey_append (h : BareKey key) {c d : Char} {rest ds : List Char}
    (hc : isBareKey c = false) (hskip : skipBlanks (c :: rest) = d :: ds) (hd : d ≠ '.') :
    readKey maxDepth (key.toList ++ c :: rest) = some ([key], d :: ds) := by
  rw [maxDepth, readKey, h.skipBlanks_append, h.readKeyPiece_append hc]
  simp only [Option.bind_eq_bind, Option.bind_some, hskip]
  split
  next heq => exact absurd (List.cons.inj heq).1 hd
  next => rfl

end BareKey

/-! ### Values -/

/-- A text that is read as a value where its line ends behind it. -/
def Spells (text : String) (v : Value) : Prop :=
  ∀ rest, readValue maxDepth (skipBlanks (text.toList ++ '\n' :: rest)) = some (v, '\n' :: rest)

theorem spells_boolean (b : Bool) : Spells (if b then "true" else "false") (.boolean b) := by
  intro rest
  cases b <;> rfl

theorem writeChars_eq_cons (cs : List Char) :
    ∃ q ds, writeChars cs = q :: ds ∧ (q = '\x22' ∨ q = '\x27') := by
  rw [writeChars]
  cases Form.of cs with
  | basic => exact ⟨_, _, rfl, .inl rfl⟩
  | literal => exact ⟨_, _, rfl, .inr rfl⟩
  | multiBasic => exact ⟨_, _, rfl, .inl rfl⟩
  | multiLiteral => exact ⟨_, _, rfl, .inr rfl⟩

theorem readValue_quote {q : Char} (h : q = '\x22' ∨ q = '\x27') (depth : Nat) (cs : List Char) :
    readValue depth (q :: cs) =
      (readString (q :: cs)).map fun (s, rest) => (.string s, rest) := by
  rcases h with rfl | rfl <;> cases depth <;> rfl

theorem spells_string (s : String) : Spells (writeString s) (.string s) := by
  intro rest
  have hread : readString (writeChars s.toList ++ '\n' :: rest) =
      some (String.ofList s.toList, '\n' :: rest) :=
    readString_writeChars s.toList ⟨by simp, by simp⟩
  obtain ⟨q, ds, hcons, hq⟩ := writeChars_eq_cons s.toList
  have hblank : isInlineBlank q = false := by rcases hq with rfl | rfl <;> rfl
  rw [writeString, String.toList_ofList]
  rw [hcons, List.cons_append] at hread ⊢
  rw [skipBlanks_cons hblank, readValue_quote hq, hread, String.ofList_toList]
  rfl

/-! ### Lines -/

/-- What a line adds to the table that is being built. -/
theorem readLine_pair {key text : String} {v : Value} (hkey : BareKey key) (hv : Spells text v)
    (b : Building) (rest : List Char) :
    readLine b (key.toList ++ ' ' :: '=' :: ' ' :: (text.toList ++ '\n' :: rest)) =
      (b.addPair [key] v).map (·, rest) := by
  obtain ⟨c, cs, hcons, hc⟩ := hkey.exists_cons
  have hread : readKey maxDepth (key.toList ++ ' ' :: '=' :: ' ' :: (text.toList ++ '\n' :: rest)) =
      some ([key], '=' :: ' ' :: (text.toList ++ '\n' :: rest)) :=
    hkey.readKey_append rfl rfl (by decide)
  rw [hcons, List.cons_append] at hread ⊢
  generalize cs ++ _ = line at hread ⊢
  unfold readLine
  split
  next heq => cases heq; cases hc
  next heq => cases heq; cases hc
  next heq => cases heq; cases hc
  next heq => cases heq; cases hc
  next heq => cases heq; cases hc
  next =>
    rw [hread]
    simp only [Option.bind_eq_bind, Option.bind_some, skip, if_pos, skipBlanks_space, hv rest,
      endLine_lineEnd]
    cases b.addPair [key] v <;> rfl

theorem readLines_pair {key text : String} {v : Value} (hkey : BareKey key) (hv : Spells text v)
    (b : Building) (rest : List Char) :
    readLines b (key.toList ++ ' ' :: '=' :: ' ' :: (text.toList ++ '\n' :: rest)) =
      (b.addPair [key] v).bind (readLines · rest) := by
  have hline := readLine_pair hkey hv b rest
  have hskip := hkey.skipBlanks_append (' ' :: '=' :: ' ' :: (text.toList ++ '\n' :: rest))
  have hshorter : rest.length <
      (key.toList ++ ' ' :: '=' :: ' ' :: (text.toList ++ '\n' :: rest)).length := by
    simp
    omega
  rw [readLines, hskip]
  split
  next heq => simp at heq
  next =>
    rw [hline]
    cases b.addPair [key] v with
    | none => rfl
    | some b' => exact if_pos hshorter

/-- The table under a header that has no points in it, while its lines are read. -/
def Building.under (name : String) (fields : Fields) : Building :=
  ⟨[(name, .table .header fields)], [name]⟩

theorem Building.addPair_under {name key : String} {fields : Fields} (v : Value)
    (h : fields.lookup key = none) :
    (under name fields).addPair [key] v = some (under name (fields ++ [(key, v)])) := by
  simp [under, addPair, Fields.below, Fields.changeAt, Fields.addKey, Fields.add, h, Fields.replace]

/-- Lines for the keys of a table and their values. -/
inductive Lines : List Char → Fields → Prop
  | nil : Lines [] []
  | cons {key text : String} {v : Value} {lines : List Char} {fields : Fields}
      (hkey : BareKey key) (hv : Spells text v) (h : Lines lines fields) :
      Lines (key.toList ++ ' ' :: '=' :: ' ' :: (text.toList ++ '\n' :: lines))
        ((key, v) :: fields)

theorem Lines.append {lines lines' : List Char} {fields fields' : Fields}
    (h : Lines lines fields) (h' : Lines lines' fields') :
    Lines (lines ++ lines') (fields ++ fields') := by
  induction h with
  | nil => exact h'
  | cons hkey hv _ ih => simpa using Lines.cons hkey hv ih

theorem Lines.readLines {lines : List Char} {fields : Fields} (h : Lines lines fields)
    {name : String} {before : Fields} (hnew : ((before ++ fields).map Prod.fst).Nodup) :
    Toml.readLines (.under name before) lines =
      some [(name, .table .header (before ++ fields))] := by
  induction h generalizing before with
  | nil =>
    rw [List.append_nil, Toml.readLines]
    rfl
  | @cons key text v lines fields hkey hv _ ih =>
    have hlookup : before.lookup key = none := by
      rw [List.map_append, List.nodup_append] at hnew
      refine List.lookup_eq_none_iff.2 fun f hf => bne_iff_ne.2 fun heq => ?_
      exact hnew.2.2 _ (List.mem_map_of_mem hf) _ List.mem_cons_self heq.symm
    rw [readLines_pair hkey hv, Building.addPair_under v hlookup, Option.bind_some,
      ih (by simpa using hnew)]
    simp

theorem readLine_header {name : String} (hname : BareKey name) (lines : List Char) :
    readLine ⟨[], []⟩ ('[' :: (name.toList ++ ']' :: '\n' :: lines)) =
      some (.under name [], lines) := by
  obtain ⟨c, cs, hcons, hc⟩ := hname.exists_cons
  have hread : readKey maxDepth (name.toList ++ ']' :: '\n' :: lines) =
      some ([name], ']' :: '\n' :: lines) :=
    hname.readKey_append rfl rfl (by decide)
  rw [hcons, List.cons_append] at hread ⊢
  generalize cs ++ _ = line at hread ⊢
  unfold readLine
  split
  next heq => cases heq
  next heq => cases heq; cases hc
  next heq =>
    cases heq
    rw [hread]
    rfl
  next heq => cases heq
  next heq => cases heq
  next hheader _ _ => exact absurd rfl (hheader _)

/-- A document with one header and lines for different keys below it is read as their table. -/
theorem read_table {name : String} (hname : BareKey name) {lines : List Char} {fields : Fields}
    (h : Lines lines fields) (hnew : (fields.map Prod.fst).Nodup) :
    Toml.read ('[' :: (name.toList ++ ']' :: '\n' :: lines)) =
      some [(name, .table .header fields)] := by
  have hshorter : lines.length < ('[' :: (name.toList ++ ']' :: '\n' :: lines)).length := by
    simp
    omega
  unfold Toml.read
  split
  next heq => cases heq
  next =>
    rw [Toml.readLines, skipBlanks_cons rfl]
    simp only [readLine_header hname, Option.bind_eq_bind, Option.bind_some, if_pos hshorter]
    exact h.readLines hnew

end EndpointCatalog.Toml
