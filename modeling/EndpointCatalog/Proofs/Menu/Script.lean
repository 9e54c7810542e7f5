import EndpointCatalog.Menu.Run
import EndpointCatalog.Proofs.Files.Seat
import EndpointCatalog.Proofs.Store.Lawful
import EndpointCatalog.Proofs.Text.Lines

/-! Scripts for the menu. A list of actions is written as the lines that the prompts ask
for; the menu that reads them does what the actions say, one after the other, and each
action leaves it at the choice of the next one. -/

namespace EndpointCatalog.Menu

/-! ### Answers in a row -/

variable {σ : Type} [RecordingStore σ] (m : Setting)

/-- Lines that take a store and an open prompt to others, by answering one prompt each. -/
inductive Answers : σ → Prompt → List String → σ → Prompt → Prop
  | nil (db : σ) (p : Prompt) : Answers db p [] db p
  | cons {db mid after : σ} {p next last : Prompt} {line shown : String}
      {lines : List String} (h : answer m db p line = ⟨shown, mid, some next⟩)
      (rest : Answers mid next lines after last) : Answers db p (line :: lines) after last

variable {m}

theorem Answers.append {db mid after : σ} {p q r : Prompt} {front back : List String}
    (h : Answers m db p front mid q) (h' : Answers m mid q back after r) :
    Answers m db p (front ++ back) after r := by
  induction h with
  | nil => exact h'
  | cons hline _ ih => exact .cons hline (ih h')

theorem Transcript.after_after {σ : Type} (first second : String) (t : Transcript σ) :
    (t.after second).after first = t.after (first ++ second) := by
  rw [after, after, after, String.append_assoc]

/-- The line feed at the end of a line is not part of the answer. -/
theorem answer_line (db : σ) (p : Prompt) (line : String) :
    answer m db p (line ++ "\n") = answer m db p line := by
  simp only [answer, Text.trim_line]

/-- After some answers the menu goes on as if it began with what they lead to. -/
theorem Answers.converse {db after : σ} {p last : Prompt} {lines : List String}
    (h : Answers m db p lines after last) (broken : Bool) (rest : List String) :
    ∃ shown, Menu.converse m broken db p (lines.map (· ++ "\n") ++ rest) =
      (Menu.converse m broken after last rest).after shown := by
  induction h with
  | nil db p => exact ⟨"", by rw [Transcript.after, String.empty_append]; rfl⟩
  | @cons db mid after p next last line shown lines hline _ ih =>
    obtain ⟨more, hmore⟩ := ih
    refine ⟨p.text m ++ shown ++ more, ?_⟩
    rw [List.map_cons, List.cons_append, Menu.converse, answer_line, hline]
    simp only [hmore, Transcript.after_after]

/-! ### Actions -/

inductive Action
  | scan (root : String)
  | enter (folder controller : String) (entries : List Manual.Entry)
  | list
  /-- An answer that is no choice. -/
  | other (text : String)

namespace Action

/-- The answers that ask for an action. -/
def lines : Action → List String
  | scan root => ["1", root]
  | enter folder controller entries =>
    "2" :: folder :: controller :: (entries.flatMap fun e => [e.url, e.redirect]) ++ [""]
  | list => ["3"]
  | other text => [text]

variable (m) in
/-- The store after an action, also when the action fails. -/
def perform (db : σ) : Action → σ
  | scan root => (Scan.scanRecorded m.tree m.now m.later m.options (Path.expand m.home root) db).2
  | enter folder controller entries => finalState (Manual.add folder controller entries) db
  | list => db
  | other _ => db

/-- A scan of a folder that is not there changes nothing. -/
theorem perform_scan_missing {root : String}
    (h : m.tree.folder? (Path.expand m.home root) = none) (db : σ) :
    perform m db (scan root) = db := by
  rw [perform, Scan.scanRecorded, h]
  rfl

/-- A text that can be given as an answer and is read as it is. -/
def IsAnswer (text : String) : Prop := Text.trim text = text ∧ '\n' ∉ text.toList

instance (text : String) : Decidable (IsAnswer text) := inferInstanceAs (Decidable (_ ∧ _))

/-- Whether an action can be written as answers; an empty root stands for the default one,
and an empty url ends the entries. -/
def Writable : Action → Prop
  | scan root => IsAnswer root ∧ root ≠ ""
  | enter folder controller entries => IsAnswer folder ∧ IsAnswer controller ∧
      ∀ e ∈ entries, IsAnswer e.url ∧ e.url ≠ "" ∧ IsAnswer e.redirect
  | list => True
  | other text => IsAnswer text ∧ text ∉ ["1", "2", "3", "4"]

instance : (a : Action) → Decidable a.Writable
  | scan _ => inferInstanceAs (Decidable (_ ∧ _))
  | enter .. => inferInstanceAs (Decidable (_ ∧ _ ∧ _))
  | list => inferInstanceAs (Decidable True)
  | other _ => inferInstanceAs (Decidable (_ ∧ _))

end Action

theorem parse_other {text : String} (h : text ∉ ["1", "2", "3", "4"])
    (htrim : Text.trim text = text) : Choice.parse text = .invalid := by
  simp only [List.mem_cons, List.not_mem_nil, or_false, not_or] at h
  obtain ⟨h1, h2, h3, h4⟩ := h
  rw [Choice.parse, htrim]
  split <;> first | contradiction | rfl

theorem scan_db (root : Path) (db : σ) :
    (scan m root db).2 = (Scan.scanRecorded m.tree m.now m.later m.options root db).2 := by
  rw [scan]
  split
  next h => rw [h]
  next h => rw [h]
  next h => rw [h]

theorem enter_db (folder controller : String) (entries : List Manual.Entry) (db : σ) :
    (enter m folder controller entries db).2 =
      finalState (Manual.add folder controller entries) db := by
  rw [enter, finalState]
  cases (Manual.add folder controller entries).run db <;> rfl

/-- The urls and redirects are collected until an empty line completes the entry. -/
theorem answers_entries (folder controller : String) (db : σ)
    {entries : List Manual.Entry}
    (h : ∀ e ∈ entries, Action.IsAnswer e.url ∧ e.url ≠ "" ∧ Action.IsAnswer e.redirect)
    (done : List Manual.Entry) :
    Answers m db (.url folder controller done)
      ((entries.flatMap fun e => [e.url, e.redirect]) ++ [""])
      (finalState (Manual.add folder controller (done ++ entries)) db) .choice := by
  induction entries generalizing done with
  | nil =>
    rw [List.append_nil, ← enter_db (m := m)]
    exact .cons rfl (.nil _ _)
  | cons e entries ih =>
    obtain ⟨⟨⟨hurl, _⟩, hne, ⟨hredirect, _⟩⟩, hrest⟩ := List.forall_mem_cons.1 h
    have hopen : answer m db (.url folder controller done) e.url =
        ⟨"", db, some (.redirect folder controller done e.url)⟩ := by
      simp only [answer, hurl, String.isEmpty_iff, hne, if_false]
    have hentry : answer m db (.redirect folder controller done e.url) e.redirect =
        ⟨"", db, some (.url folder controller (done ++ [e]))⟩ := by
      simp only [answer, hredirect]
    have hmore := ih hrest (done ++ [e])
    rw [List.append_assoc, List.singleton_append] at hmore
    exact .cons hopen (.cons hentry hmore)

/-- The lines of an action perform it and come back to the choice. -/
theorem answers_lines {a : Action} (h : a.Writable) (db : σ) :
    Answers m db .choice a.lines (a.perform m db) .choice := by
  cases a with
  | scan root =>
    obtain ⟨⟨htrim, _⟩, hne⟩ := h
    have hscan : answer m db .root root = .back (scan m (Path.expand m.home root) db) := by
      simp only [answer, scanAnswer, htrim, String.isEmpty_iff, hne, if_false]
    have hone : answer m db .choice "1" = ⟨"", db, some .root⟩ := rfl
    rw [Action.perform, ← scan_db]
    exact .cons hone (.cons hscan (.nil _ _))
  | enter folder controller entries =>
    obtain ⟨⟨hfolder, _⟩, ⟨hcontroller, _⟩, hentries⟩ := h
    have htwo : answer m db .choice "2" = ⟨"", db, some .folder⟩ := rfl
    have hfirst : answer m db .folder folder = ⟨"", db, some (.controller folder)⟩ := by
      simp only [answer, hfolder]
    have hsecond : answer m db (.controller folder) controller =
        ⟨"", db, some (.url folder controller [])⟩ := by
      simp only [answer, hcontroller]
    have hrest := answers_entries (m := m) folder controller db hentries []
    exact .cons htwo (.cons hfirst (.cons hsecond hrest))
  | list => exact .cons rfl (.nil _ _)
  | other text =>
    obtain ⟨⟨htrim, _⟩, hnone⟩ := h
    have hinvalid : answer m db .choice text =
        .back (Terminal.paint m.color Terminal.Style.red.bold "Error" ++ "\n", db) := by
      simp only [answer, parse_other hnone htrim, htrim]
    exact .cons hinvalid (.nil _ _)

/-! ### Scripts -/

/-- The bytes of the lines that ask for some actions. -/
def script (actions : List Action) : Text.Utf8.Bytes :=
  (actions.flatMap Action.lines).flatMap Text.lineBytes

/-- What can follow a script: nothing, or the choice to exit, which is the last line to be
read whatever is behind it. -/
inductive Closing : Text.Utf8.Bytes → Prop
  | inputEnds : Closing []
  | exit (behind : Text.Utf8.Bytes) : Closing (Text.lineBytes "4" ++ behind)
  | exitUnended : Closing (Text.Utf8.encode "4".toList)

theorem answers_script {actions : List Action} (h : ∀ a ∈ actions, a.Writable) (db : σ) :
    Answers m db .choice (actions.flatMap Action.lines)
      (actions.foldl (Action.perform m) db) .choice := by
  induction actions generalizing db with
  | nil => exact .nil db .choice
  | cons a actions ih =>
    obtain ⟨ha, hactions⟩ := List.forall_mem_cons.1 h
    rw [List.flatMap_cons, List.foldl_cons]
    exact (answers_lines ha db).append (ih hactions _)

theorem Action.Writable.no_lineFeed {a : Action} (h : a.Writable) :
    ∀ line ∈ a.lines, '\n' ∉ line.toList := by
  cases a with
  | scan root => exact List.forall_mem_cons.2 ⟨by decide, by simpa using h.1.2⟩
  | enter folder controller entries =>
    obtain ⟨⟨_, hfolder⟩, ⟨_, hcontroller⟩, hentries⟩ := h
    intro line hline
    simp only [lines, List.cons_append, List.mem_cons, List.mem_append, List.mem_flatMap,
      List.not_mem_nil, or_false] at hline
    rcases hline with rfl | rfl | rfl | ⟨e, he, rfl | rfl⟩ | rfl
    · decide
    · exact hfolder
    · exact hcontroller
    · exact (hentries e he).1.2
    · exact (hentries e he).2.2.2
    · decide
  | list => exact List.forall_mem_cons.2 ⟨by decide, by simp⟩
  | other text => simpa [lines] using h.1.2

/-- The choice is where a run may end without an action being dropped. -/
theorem converse_closing {ending : Text.Utf8.Bytes} (h : Closing ending) (db : σ) :
    ∃ output, converse m (Text.Input.ofBytes ending).broken db .choice
      (Text.Input.ofBytes ending).lines = ⟨output, db, false⟩ := by
  cases h with
  | inputEnds => exact ⟨_, rfl⟩
  | exit behind =>
    rw [Text.ofBytes_line (by decide), converse, answer_line]
    exact ⟨_, rfl⟩
  | exitUnended =>
    have hlast : Text.Input.ofBytes (Text.Utf8.encode "4".toList) = ⟨["4"], false⟩ := by decide
    rw [hlast]
    exact ⟨_, rfl⟩

/-- The menu does what its script says: it comes to its end, and the store is then as the
actions leave it when they are performed one after the other. -/
theorem run_script {actions : List Action} (h : ∀ a ∈ actions, a.Writable)
    {ending : Text.Utf8.Bytes} (hend : Closing ending) (db : σ) :
    (run m db (Text.Input.ofBytes (script actions ++ ending))).broken = false ∧
      (run m db (Text.Input.ofBytes (script actions ++ ending))).db =
        actions.foldl (Action.perform m) db := by
  have hlines : ∀ line ∈ actions.flatMap Action.lines, '\n' ∉ line.toList := by
    intro line hline
    obtain ⟨a, ha, hmem⟩ := List.mem_flatMap.1 hline
    exact (h a ha).no_lineFeed line hmem
  obtain ⟨shown, hscript⟩ := (answers_script (m := m) h db).converse
    (Text.Input.ofBytes ending).broken (Text.Input.ofBytes ending).lines
  obtain ⟨output, hclosed⟩ := converse_closing (m := m) hend (actions.foldl (Action.perform m) db)
  rw [run, script, Text.ofBytes_lines hlines, hscript, hclosed]
  exact ⟨rfl, rfl⟩

/-- A script goes on after a root that is missing and an answer that is no choice, and nothing
behind the choice to exit is read. -/
theorem script_with_missing_root :
    let m : Setting := ⟨⟨[], []⟩, "/home", 0, 0, false, .standard, none⟩
    let actions : List Action := [.scan "gone", .other "5", .enter "v" "a" [⟨"/api/x", "p"⟩], .list]
    (∀ a ∈ actions, a.Writable) ∧ Closing (Text.lineBytes "4" ++ [0xFF]) ∧
      (run m Database.empty (Text.Input.ofBytes
        (script actions ++ (Text.lineBytes "4" ++ [0xFF])))).db.endpoints =
          [⟨1, 1, "/api/x", "p"⟩] := by
  intro m actions
  have hactions : ∀ a ∈ actions, a.Writable := by decide
  have hend : Closing (Text.lineBytes "4" ++ [0xFF]) := .exit [0xFF]
  have hgone : m.tree.folder? (Path.expand m.home "gone") = none := by
    have hexpand : Path.expand m.home "gone" = ⟨"gone"⟩ := by decide
    have hlookup : m.tree.lookup .target ⟨"gone"⟩ = .ok (.missing [] "gone") :=
      FileTree.lookup_name_missing ⟨by decide, by decide, by decide⟩ rfl (by decide)
        ⟨by decide, by decide, by decide⟩ rfl rfl .target
    rw [hexpand, FileTree.folder?, FileTree.resolve, hlookup]
  have hentered : (Action.perform m Database.empty (.enter "v" "a" [⟨"/api/x", "p"⟩])).endpoints =
      [⟨1, 1, "/api/x", "p"⟩] := by
    decide
  refine ⟨hactions, hend, ?_⟩
  rw [(run_script hactions hend Database.empty).2]
  simp only [actions, List.foldl_cons, List.foldl_nil, Action.perform_scan_missing hgone]
  exact hentered

end EndpointCatalog.Menu
