import EndpointCatalog.Report.Render
import Mathlib.Data.List.Basic
import Mathlib.Tactic.SplitIfs

/-! Reading a table of comma-separated values back. The grammar of such tables says which
texts stand for which records, and the reader finds the records of every text of the
grammar. A table is written in the grammar, and read back as it was, exactly when each of
its fields with a carriage return is quoted for another character in it. -/

namespace EndpointCatalog.Report.Csv

/-! ### The grammar -/

/-- A character that may stand in a field without quotes. -/
def isTextData (c : Char) : Bool := c != ',' && c != '\x22' && c != '\r' && c != '\n'

/-- What stands between the quotes of a field, and its content. -/
inductive Escaped : List Char → List Char → Prop
  | nil : Escaped [] []
  | char {c : Char} {t s : List Char} : c ≠ '\x22' → Escaped t s → Escaped (c :: t) (c :: s)
  | quote {t s : List Char} : Escaped t s → Escaped ('\x22' :: '\x22' :: t) ('\x22' :: s)

inductive Field : List Char → List Char → Prop
  | bare {s : List Char} : (∀ c ∈ s, isTextData c = true) → Field s s
  | quoted {t s : List Char} : Escaped t s → Field ('\x22' :: t ++ ['\x22']) s

inductive Record : List Char → List String → Prop
  | last {t s : List Char} : Field t s → Record t [String.ofList s]
  | field {t s ts : List Char} {fields : List String} : Field t s → Record ts fields →
      Record (t ++ ',' :: ts) (String.ofList s :: fields)

/-- A text and the records in it. A line feed ends a record, with or without a carriage
return before it; at the end of the text it may be missing. -/
inductive Table : List Char → List (List String) → Prop
  | nil : Table [] []
  | last {t : List Char} {r : List String} : Record t r → t ≠ [] → Table t [r]
  | lineFeed {t ts : List Char} {r : List String} {rs : List (List String)} : Record t r →
      Table ts rs → Table (t ++ '\n' :: ts) (r :: rs)
  | returnLineFeed {t ts : List Char} {r : List String} {rs : List (List String)} : Record t r →
      Table ts rs → Table (t ++ '\r' :: '\n' :: ts) (r :: rs)

/-! ### The reader -/

/-- The content of a quoted field behind its first quote, and the rest behind its last. -/
def readQuoted : List Char → Option (List Char × List Char)
  | [] => none
  | '\x22' :: '\x22' :: rest => (readQuoted rest).map fun (s, rest) => ('\x22' :: s, rest)
  | c :: rest =>
    if c = '\x22' then some ([], rest)
    else (readQuoted rest).map fun (s, rest) => (c :: s, rest)

def readField : List Char → Option (List Char × List Char)
  | '\x22' :: rest => readQuoted rest
  | cs => some (cs.takeWhile isTextData, cs.dropWhile isTextData)

/-- The rest behind the end of a record. -/
def endRecord : List Char → Option (List Char)
  | [] => some []
  | '\r' :: '\n' :: rest => some rest
  | '\r' :: rest => some rest
  | '\n' :: rest => some rest
  | _ => none

def readRecord (cs : List Char) : Option (List String × List Char) := do
  let (s, rest) ← readField cs
  match rest with
  | ',' :: rest =>
    if rest.length < cs.length then do
      let (fields, rest) ← readRecord rest
      return (String.ofList s :: fields, rest)
    else none
  | rest => do return ([String.ofList s], ← endRecord rest)
termination_by cs.length

/-- The records of a text. Outside of quotes, a record ends at a carriage return, at a line
feed and at both in a row. -/
def read (cs : List Char) : Option (List (List String)) :=
  if cs = [] then some []
  else do
    let (r, rest) ← readRecord cs
    if rest.length < cs.length then return r :: (← read rest) else none
termination_by cs.length

/-! ### Texts of the grammar are read -/

/-- What may stand behind a field. -/
def EndsField (rest : List Char) : Prop := ∀ c ∈ rest.head?, c = ',' ∨ c = '\r' ∨ c = '\n'

theorem EndsField.not_quote {rest : List Char} (h : EndsField rest) : rest.head? ≠ some '\x22' := by
  intro hq
  rcases h _ hq with hc | hc | hc <;> cases hc

theorem endsField_of_endRecord {rest more : List Char} (h : endRecord rest = some more) :
    EndsField rest := by
  intro c hc
  cases rest with
  | nil => cases hc
  | cons d rest =>
    obtain rfl : d = c := by simpa using hc
    by_contra hne
    obtain ⟨-, hr, hn⟩ : d ≠ ',' ∧ d ≠ '\r' ∧ d ≠ '\n' := by simpa [not_or] using hne
    simp [endRecord, hr, hn] at h

theorem Escaped.readQuoted {t s rest : List Char} (h : Escaped t s)
    (hrest : rest.head? ≠ some '\x22') :
    Csv.readQuoted (t ++ '\x22' :: rest) = some (s, rest) := by
  induction h with
  | nil =>
    cases rest with
    | nil => rfl
    | cons c rest =>
      have hc : c ≠ '\x22' := by simpa using hrest
      simp [Csv.readQuoted, hc]
  | char hc _ ih => simp [Csv.readQuoted, hc, ih]
  | quote _ ih => simp [Csv.readQuoted, ih]

theorem readField_of_not_quote {cs : List Char} (h : cs.head? ≠ some '\x22') :
    readField cs = some (cs.takeWhile isTextData, cs.dropWhile isTextData) := by
  cases cs with
  | nil => rfl
  | cons c cs =>
    have hc : c ≠ '\x22' := by simpa using h
    simp [readField, hc]

/-- A bare text reaches up to the first character that ends it. -/
theorem readField_bare {s rest : List Char} (hs : ∀ c ∈ s, isTextData c = true)
    (hrest : EndsField rest) : readField (s ++ rest) = some (s, rest) := by
  have hstop : rest.takeWhile isTextData = [] ∧ rest.dropWhile isTextData = rest := by
    cases rest with
    | nil => exact ⟨rfl, rfl⟩
    | cons c rest => rcases hrest c rfl with rfl | rfl | rfl <;> exact ⟨rfl, rfl⟩
  have hhead : (s ++ rest).head? ≠ some '\x22' := by
    cases s with
    | nil => exact hrest.not_quote
    | cons c s =>
      intro hc
      obtain rfl : c = '\x22' := by simpa using hc
      exact absurd (hs _ List.mem_cons_self) (by decide)
  rw [readField_of_not_quote hhead, List.takeWhile_append_of_pos hs,
    List.dropWhile_append_of_pos hs, hstop.1, hstop.2, List.append_nil]

theorem Field.readField {t s rest : List Char} (h : Field t s) (hrest : EndsField rest) :
    Csv.readField (t ++ rest) = some (s, rest) := by
  cases h with
  | bare hs => exact readField_bare hs hrest
  | quoted hescaped =>
    rw [List.append_assoc, List.cons_append, Csv.readField]
    exact hescaped.readQuoted hrest.not_quote

theorem readRecord_field {t s rest : List Char}
    (h : Csv.readField (t ++ ',' :: rest) = some (s, ',' :: rest)) :
    readRecord (t ++ ',' :: rest) = (readRecord rest).map fun (fields, more) =>
      (String.ofList s :: fields, more) := by
  rw [readRecord, h]
  simp only [Option.bind_eq_bind, Option.bind_some, List.length_append, List.length_cons]
  rw [if_pos (by omega)]
  cases readRecord rest <;> rfl

theorem readRecord_last {t s rest more : List Char}
    (h : Csv.readField (t ++ rest) = some (s, rest)) (hend : endRecord rest = some more) :
    readRecord (t ++ rest) = some ([String.ofList s], more) := by
  rw [readRecord, h]
  cases rest with
  | nil => cases hend; rfl
  | cons c rest =>
    have hc : c ≠ ',' := by rintro rfl; cases hend
    simp [hc, hend]

theorem Record.readRecord {t rest more : List Char} {r : List String} (h : Record t r)
    (hend : endRecord rest = some more) : Csv.readRecord (t ++ rest) = some (r, more) := by
  induction h with
  | last hfield =>
    exact readRecord_last (hfield.readField (endsField_of_endRecord hend)) hend
  | field hfield _ ih =>
    rw [List.append_assoc, List.cons_append,
      readRecord_field (hfield.readField (by simp [EndsField])), ih]
    rfl

theorem read_cons {t rest : List Char} {r : List String}
    (h : readRecord t = some (r, rest)) (hlength : rest.length < t.length) :
    read t = (read rest).map (r :: ·) := by
  have hne : t ≠ [] := List.ne_nil_of_length_pos (Nat.zero_lt_of_lt hlength)
  rw [read, if_neg hne, h]
  simp only [Option.bind_eq_bind, Option.bind_some, if_pos hlength]
  cases read rest <;> rfl

/-- Each text of the grammar is read as the records it stands for. -/
theorem Table.read {t : List Char} {rs : List (List String)} (h : Table t rs) :
    Csv.read t = some rs := by
  induction h with
  | nil => rw [Csv.read, if_pos rfl]
  | @last t r hr hne =>
    have hend : endRecord [] = some [] := rfl
    have hread : readRecord t = some (r, []) := by simpa using hr.readRecord hend
    rw [read_cons hread (List.length_pos_of_ne_nil hne), Csv.read, if_pos rfl]
    rfl
  | lineFeed hr _ ih =>
    rw [read_cons (hr.readRecord rfl) (by simp; omega), ih]
    rfl
  | returnLineFeed hr _ ih =>
    rw [read_cons (hr.readRecord rfl) (by simp; omega), ih]
    rfl

/-! ### What is written -/

theorem escaped_doubled (s : List Char) : Escaped (doubled s) s := by
  induction s with
  | nil => exact .nil
  | cons c s ih =>
    rw [doubled, List.flatMap_cons]
    rcases eq_or_ne c '\x22' with rfl | hc
    · exact .quote ih
    · rw [if_neg (by simpa using hc)]
      exact .char hc ih

/-- A field that is not quoted although there is a carriage return in it. -/
def LooseReturn (field : List Char) : Prop := '\r' ∈ field ∧ needsQuotes field = false

theorem isTextData_of_not_needsQuotes {s : List Char} (h : needsQuotes s = false) {c : Char}
    (hc : c ∈ s) (hr : c ≠ '\r') : isTextData c = true := by
  have := List.any_eq_false.1 h c hc
  simp_all [isTextData]

theorem field_encodeField {s : List Char} (h : ¬ LooseReturn s) : Field (encodeField s) s := by
  rw [encodeField]
  cases hq : needsQuotes s with
  | true => exact .quoted (escaped_doubled s)
  | false =>
    refine .bare fun c hc => isTextData_of_not_needsQuotes hq hc ?_
    rintro rfl
    exact h ⟨hc, hq⟩

theorem encodeRecord_singleton (f : String) :
    encodeRecord [f] = encodeField f.toList ++ ['\n'] := by
  simp [encodeRecord, List.intercalate]

theorem encodeRecord_cons (f g : String) (fields : List String) :
    encodeRecord (f :: g :: fields) =
      encodeField f.toList ++ ',' :: encodeRecord (g :: fields) := by
  simp [encodeRecord, List.intercalate]

theorem record_encodeRecord {fields : List String} (hne : fields ≠ [])
    (h : ∀ f ∈ fields, ¬ LooseReturn f.toList) :
    ∃ t, encodeRecord fields = t ++ ['\n'] ∧ Record t fields := by
  induction fields with
  | nil => exact absurd rfl hne
  | cons f fields ih =>
    obtain ⟨hf, hfields⟩ := List.forall_mem_cons.1 h
    have hfield := field_encodeField hf
    cases fields with
    | nil =>
      refine ⟨_, encodeRecord_singleton f, ?_⟩
      simpa using Record.last hfield
    | cons g fields =>
      obtain ⟨t, ht, hrecord⟩ := ih (List.cons_ne_nil g fields) hfields
      refine ⟨encodeField f.toList ++ ',' :: t, ?_, ?_⟩
      · rw [encodeRecord_cons, ht, List.append_assoc, List.cons_append]
      · simpa using Record.field hfield hrecord

theorem table_encodeRecords {records : List (List String)}
    (h : ∀ r ∈ records, r ≠ [] ∧ ∀ f ∈ r, ¬ LooseReturn f.toList) :
    Table (records.flatMap encodeRecord) records := by
  induction records with
  | nil => exact .nil
  | cons r records ih =>
    obtain ⟨⟨hne, hfields⟩, hrecords⟩ := List.forall_mem_cons.1 h
    obtain ⟨t, ht, hrecord⟩ := record_encodeRecord hne hfields
    rw [List.flatMap_cons, ht, List.append_assoc]
    exact .lineFeed hrecord (ih hrecords)

/-! ### What is lost -/

/-- The reader stops a field at a carriage return outside of quotes. -/
theorem readField_loose {s : List Char} (h : LooseReturn s) (rest : List Char) :
    ∃ front more, readField (encodeField s ++ rest) = some (front, '\r' :: more) ∧ front ≠ s := by
  obtain ⟨hr, hq⟩ := h
  obtain ⟨front, behind, rfl, hfront⟩ := List.eq_append_cons_of_mem hr
  refine ⟨front, behind ++ rest, ?_, by simp⟩
  rw [encodeField, if_neg (by simp [hq]), List.append_assoc, List.cons_append]
  refine readField_bare (fun c hc => ?_) (by simp [EndsField])
  refine isTextData_of_not_needsQuotes hq (List.mem_append_left _ hc) ?_
  rintro rfl
  exact hfront hc

theorem readRecord_loose {s : List Char} (h : LooseReturn s) (rest : List Char) :
    ∃ front more, readRecord (encodeField s ++ rest) = some ([String.ofList front], more) ∧
      front ≠ s := by
  obtain ⟨front, more, hread, hne⟩ := readField_loose h rest
  obtain ⟨more', hmore⟩ : ∃ more', endRecord ('\r' :: more) = some more' := by
    cases more with
    | nil => exact ⟨[], rfl⟩
    | cons c more => rcases eq_or_ne c '\n' with rfl | hc <;> simp [endRecord, *]
  refine ⟨front, more', ?_, hne⟩
  rw [readRecord, hread]
  simp [hmore]

/-- A record that is read as it was written has no loose carriage return. -/
theorem not_loose_of_readRecord {fields : List String} {rest more : List Char}
    (h : readRecord (encodeRecord fields ++ rest) = some (fields, more)) :
    ∀ f ∈ fields, ¬ LooseReturn f.toList := by
  induction fields generalizing more with
  | nil => simp
  | cons f fields ih =>
    have hf : ¬ LooseReturn f.toList := by
      intro hloose
      have hencoded : ∃ behind, encodeRecord (f :: fields) ++ rest =
          encodeField f.toList ++ behind := by
        cases fields with
        | nil => exact ⟨_, by rw [encodeRecord_singleton, List.append_assoc]⟩
        | cons g fields => exact ⟨_, by rw [encodeRecord_cons, List.append_assoc]⟩
      obtain ⟨behind, hencoded⟩ := hencoded
      obtain ⟨front, more', hread, hne⟩ := readRecord_loose hloose behind
      rw [hencoded, hread, Option.some.injEq, Prod.mk.injEq, List.cons.injEq] at h
      exact hne (by simp [← h.1.1])
    refine List.forall_mem_cons.2 ⟨hf, ?_⟩
    cases fields with
    | nil => simp
    | cons g fields =>
      rw [encodeRecord_cons, List.append_assoc, List.cons_append,
        readRecord_field ((field_encodeField hf).readField (by simp [EndsField]))] at h
      obtain ⟨⟨fields', more'⟩, hread, heq⟩ := Option.map_eq_some_iff.1 h
      obtain ⟨hfields, rfl⟩ := Prod.mk.inj heq
      obtain ⟨-, rfl⟩ := List.cons.inj hfields
      exact ih hread

theorem read_eq_cons {t : List Char} {r : List String} {rs : List (List String)}
    (h : read t = some (r :: rs)) :
    ∃ rest, readRecord t = some (r, rest) ∧ read rest = some rs := by
  rcases eq_or_ne t [] with rfl | hne
  · rw [read, if_pos rfl] at h
    cases h
  · rw [read, if_neg hne] at h
    obtain ⟨⟨r', rest⟩, hrecord, h⟩ := Option.bind_eq_some_iff.1 h
    dsimp only at h
    split_ifs at h
    obtain ⟨rs', hrest, heq⟩ := Option.bind_eq_some_iff.1 h
    cases heq
    exact ⟨rest, hrecord, hrest⟩

/-- Records that are read as they were written have no loose carriage return. -/
theorem not_loose_of_read {records : List (List String)} (hne : ∀ r ∈ records, r ≠ [])
    (h : read (records.flatMap encodeRecord) = some records) :
    ∀ r ∈ records, ∀ f ∈ r, ¬ LooseReturn f.toList := by
  induction records with
  | nil => simp
  | cons r records ih =>
    obtain ⟨hr, hrecords⟩ := List.forall_mem_cons.1 hne
    rw [List.flatMap_cons] at h
    obtain ⟨rest, hrecord, hrest⟩ := read_eq_cons h
    have hfields := not_loose_of_readRecord hrecord
    obtain ⟨t, ht, hwritten⟩ := record_encodeRecord hr hfields
    have hagain : readRecord (encodeRecord r ++ records.flatMap encodeRecord) =
        some (r, records.flatMap encodeRecord) := by
      rw [ht, List.append_assoc]
      exact hwritten.readRecord rfl
    rw [hrecord] at hagain
    obtain rfl : rest = records.flatMap encodeRecord := by simpa using hagain
    exact List.forall_mem_cons.2 ⟨hfields, ih hrecords hrest⟩

/-! ### Reports -/

theorem ne_nil_of_mem_table {r : Report} {record : List String} (h : record ∈ table r) :
    record ≠ [] := by
  rcases List.mem_cons.1 h with rfl | h
  · simp [header]
  · obtain ⟨p, _, hp⟩ := List.mem_flatMap.1 h
    obtain ⟨e, _, rfl⟩ := List.mem_map.1 hp
    simp

theorem not_looseReturn_iff {s : List Char} :
    ¬ LooseReturn s ↔ ('\r' ∈ s → ',' ∈ s ∨ '\x22' ∈ s ∨ '\n' ∈ s) := by
  have hquotes : needsQuotes s = true ↔ ',' ∈ s ∨ '\x22' ∈ s ∨ '\n' ∈ s := by
    simp only [needsQuotes, List.any_eq_true, Bool.or_eq_true, beq_iff_eq, or_assoc]
    constructor
    · rintro ⟨c, hc, rfl | rfl | rfl⟩ <;> simp [hc]
    · rintro (hc | hc | hc)
      · exact ⟨_, hc, .inl rfl⟩
      · exact ⟨_, hc, .inr (.inl rfl)⟩
      · exact ⟨_, hc, .inr (.inr rfl)⟩
  rw [LooseReturn, not_and, Bool.not_eq_false, hquotes]

/-- The report is a table of the header and one record for each endpoint, and is read back as
that table, exactly when each of its fields with a carriage return also has a character for
which a field is quoted. -/
theorem render_read_iff (r : Report) :
    Table (r.render .csv).toList (table r) ∧ read (r.render .csv).toList = some (table r) ↔
      ∀ record ∈ table r, ∀ field ∈ record, '\r' ∈ field.toList →
        ',' ∈ field.toList ∨ '\x22' ∈ field.toList ∨ '\n' ∈ field.toList := by
  have htext : (r.render .csv).toList = (table r).flatMap encodeRecord := String.toList_ofList
  simp only [htext, ← not_looseReturn_iff]
  constructor
  · rintro ⟨-, hread⟩
    exact not_loose_of_read (fun _ h => ne_nil_of_mem_table h) hread
  · intro h
    have htable := table_encodeRecords fun record hr => ⟨ne_nil_of_mem_table hr, h record hr⟩
    exact ⟨htable, htable.read⟩

/-- The report on an endpoint with a carriage return in its url. -/
def returningUrl : Report where
  generatedAt := 0
  totalPages := 1
  totalEndpoints := 1
  pages := [⟨"v", "a", [⟨"/api/x\r/y", ""⟩]⟩]

/-- The url is cut in two, and so is its record. -/
theorem returningUrl_not_read_back :
    read (returningUrl.render .csv).toList = some [header, ["v", "a", "/api/x"], ["/y", ""]] ∧
      read (returningUrl.render .csv).toList ≠ some (table returningUrl) := by
  have hread : read (returningUrl.render .csv).toList =
      some [header, ["v", "a", "/api/x"], ["/y", ""]] := by cbv
  refine ⟨hread, ?_⟩
  rw [hread]
  decide

end EndpointCatalog.Report.Csv
