import EndpointCatalog.Menu.Run
import EndpointCatalog.Proofs.Text.LineBreak
import EndpointCatalog.Proofs.Text.Trim
import EndpointCatalog.Store.Database

/-! How a run of the menu ends. Every prompt reads a line, or none at the end of the input,
and what a run shows is what its prompts show, one after the other. A prompt is opened again
only after a line was read for it, so that the run ends, and the only places where it ends are
the choice to exit and a choice for which no line is left. -/

namespace EndpointCatalog.Menu

open Text (Input rawLines)

/-! ### Prompts and lines -/

variable {σ : Type} [RecordingStore σ] (m : Setting)

/-- What follows a prompt for which no line is left. -/
def unanswered (db : σ) : Prompt → Turn σ
  | .choice => ⟨"", db, none⟩
  | .url folder controller entries => .back (enter m folder controller entries db)
  | .redirect folder controller entries url =>
    ⟨"", db, some (.url folder controller (entries ++ [⟨url, ""⟩]))⟩
  | _ => ⟨"", db, some .choice⟩

/-- What follows a prompt, with the line that is read for it, if one is left. -/
def respond (db : σ) (prompt : Prompt) : Option String → Turn σ
  | some line => answer m db prompt line
  | none => unanswered m db prompt

/-- A prompt, the line that is read for it, and what is shown then. -/
structure Exchange where
  prompt : Prompt
  line : Option String
  shown : String

/-- Whether an exchange is the choice to exit, or a choice for which no line is left. -/
def Exchange.Ends (e : Exchange) : Prop :=
  e.prompt = .choice ∧ ∀ line ∈ e.line, Choice.parse line = .exit

def Exchange.text (e : Exchange) : String := e.prompt.text m ++ e.shown

/-- The exchanges that begin with a store, an open prompt and some lines, the store that they
leave behind, and the lines that are not read. -/
inductive Dialogue : σ → Prompt → List String → List Exchange → σ → List String → Prop
  | last {db after : σ} {prompt : Prompt} {lines : List String} {shown : String}
      (h : respond m db prompt lines.head? = ⟨shown, after, none⟩) :
      Dialogue db prompt lines [⟨prompt, lines.head?, shown⟩] after lines.tail
  | step {db mid after : σ} {prompt next : Prompt} {lines left : List String}
      {shown : String} {es : List Exchange}
      (h : respond m db prompt lines.head? = ⟨shown, mid, some next⟩)
      (rest : Dialogue mid next lines.tail es after left) :
      Dialogue db prompt lines (⟨prompt, lines.head?, shown⟩ :: es) after left

/-- The loops of the menu: the one over its choices, and the one over the endpoints that are
entered by hand. -/
inductive Loop
  | choices
  | entries

/-- Whether a prompt begins an iteration of a loop. -/
def Loop.Head : Loop → Prompt → Prop
  | choices, .choice => True
  | entries, .url .. => True
  | _, _ => False

/-- A run that comes to its end, with what it has of an input of some lines. -/
structure Ended (db : σ) (lines : List String) (es : List Exchange) (left : List String)
    (t : Transcript σ) : Prop where
  unbroken : t.broken = false
  dialogue : Dialogue m db .choice lines es t.db left
  output : t.output = String.join (es.map (·.text m))
  reads : es.filterMap (·.line) ++ left = lines
  menus : es.countP (·.prompt = .choice) ≤ lines.length + 1
  iterations : ∀ loop : Loop, es.Pairwise fun e e' =>
    loop.Head e.prompt → loop.Head e'.prompt → e.line.isSome
  exit : ∃ front last, es = front ++ [last] ∧ last.Ends ∧ (∀ e ∈ front, ¬ e.Ends) ∧
    (last.line = none → left = [])

variable {m}

/-! ### One prompt -/

theorem trim_trim (s : String) : Text.trim (Text.trim s) = Text.trim s := by
  have htrimmed := (Text.trimmed_trim s).trimChars_eq
  rw [Text.trim, htrimmed, String.ofList_toList]

/-- The menu ends at a choice only, and there only at the choice to exit or without a line. -/
theorem respond_next_eq_none {db : σ} {p : Prompt} {line : Option String} :
    (respond m db p line).next = none ↔ p = .choice ∧ ∀ l ∈ line, Choice.parse l = .exit := by
  cases line with
  | none => cases p <;> simp [respond, unanswered, Turn.back]
  | some l =>
    have hparse : Choice.parse (Text.trim l) = Choice.parse l := by
      rw [Choice.parse, Choice.parse, trim_trim]
    cases p with
    | choice =>
      simp only [respond, answer, hparse, Option.mem_some, forall_eq', true_and]
      cases Choice.parse l <;> simp [Turn.back]
    | url folder controller entries =>
      simp only [respond, answer]
      split <;> simp [Turn.back]
    | _ => simp [respond, answer, Turn.back]

/-- How many prompts can still follow one for which no line is left. -/
def Prompt.depth : Prompt → Nat
  | choice => 0
  | redirect .. => 2
  | _ => 1

theorem depth_unanswered {db mid : σ} {p next : Prompt} {shown : String}
    (h : unanswered m db p = ⟨shown, mid, some next⟩) : next.depth < p.depth := by
  cases p <;> cases h <;> simp [Prompt.depth]

theorem Loop.Head.depth_eq {loop : Loop} {p q : Prompt} (hp : loop.Head p) (hq : loop.Head q) :
    p.depth = q.depth := by
  cases loop <;> cases p <;> first
    | exact hp.elim
    | cases q <;> first | exact hq.elim | rfl

/-- What is shown at the end of the input, one prompt after the other. -/
theorem finish_unanswered {db mid : σ} {p next : Prompt} {shown : String}
    (h : unanswered m db p = ⟨shown, mid, some next⟩) :
    finish m db p = (shown ++ next.text m ++ (finish m mid next).1, (finish m mid next).2) := by
  cases p <;> cases h <;> simp [finish, String.append_assoc]

/-! ### Runs as dialogues -/

theorem converse_nil (db : σ) (p : Prompt) : converse m false db p [] =
    ⟨p.text m ++ (finish m db p).1, (finish m db p).2, false⟩ := rfl

theorem exists_dialogue_nil (db : σ) (p : Prompt) : ∃ es after,
    Dialogue m db p [] es after [] ∧
      converse m false db p [] = ⟨String.join (es.map (·.text m)), after, false⟩ := by
  rcases h : unanswered m db p with ⟨shown, mid, next⟩
  cases next with
  | none =>
    have hnone : (respond m db p none).next = none := congrArg Turn.next h
    obtain ⟨rfl, -⟩ := respond_next_eq_none.1 hnone
    refine ⟨_, _, .last rfl, ?_⟩
    simp [converse_nil, finish, Exchange.text]
  | some next =>
    have hdepth := depth_unanswered h
    obtain ⟨es, after, hes, hrest⟩ := exists_dialogue_nil mid next
    rw [converse_nil, Transcript.mk.injEq] at hrest
    obtain ⟨houtput, rfl, -⟩ := hrest
    refine ⟨_, _, .step h hes, ?_⟩
    rw [converse_nil, finish_unanswered h, List.map_cons, String.join_cons, ← houtput]
    simp only [Exchange.text, String.append_assoc]
termination_by p.depth

theorem exists_dialogue (db : σ) (p : Prompt) (lines : List String) : ∃ es after left,
    Dialogue m db p lines es after left ∧
      converse m false db p lines = ⟨String.join (es.map (·.text m)), after, false⟩ := by
  induction lines generalizing db p with
  | nil =>
    obtain ⟨es, after, h⟩ := exists_dialogue_nil (m := m) db p
    exact ⟨es, after, [], h⟩
  | cons line lines ih =>
    rcases h : answer m db p line with ⟨shown, mid, next⟩
    cases next with
    | none =>
      refine ⟨_, mid, lines, .last h, ?_⟩
      simp [converse, h, Exchange.text]
    | some next =>
      obtain ⟨es, after, left, hes, hrest⟩ := ih mid next
      refine ⟨_, after, left, .step h hes, ?_⟩
      simp [converse, h, hrest, Transcript.after, Exchange.text]

/-! ### Whole dialogues -/

section Dialogue

variable {db after : σ} {p : Prompt} {lines left : List String} {es : List Exchange}

theorem Dialogue.reads (h : Dialogue m db p lines es after left) :
    es.filterMap (·.line) ++ left = lines := by
  induction h with
  | @last _ _ _ lines => cases lines <;> rfl
  | @step _ _ _ _ _ lines _ _ _ _ _ ih =>
    cases lines with
    | nil => exact ih
    | cons line lines => exact congrArg (line :: ·) ih

theorem Dialogue.depth_le (h : Dialogue m db p lines es after left) (hnil : lines = []) :
    ∀ e ∈ es, e.prompt.depth ≤ p.depth := by
  induction h with
  | last => simp
  | step h _ ih =>
    subst hnil
    have hdepth := depth_unanswered h
    refine List.forall_mem_cons.2 ⟨le_rfl, fun e he => ?_⟩
    exact (ih rfl e he).trans hdepth.le

/-- Without a line the prompts come closer to the end. -/
theorem Dialogue.depth_lt (h : Dialogue m db p lines es after left) :
    es.Pairwise fun e e' => e.line = none → e'.prompt.depth < e.prompt.depth := by
  induction h with
  | last => exact List.pairwise_singleton ..
  | @step _ _ _ _ _ lines _ _ _ h rest ih =>
    refine .cons (fun e he hnone => ?_) ih
    obtain rfl : lines = [] := List.head?_eq_none_iff.1 hnone
    exact (rest.depth_le rfl e he).trans_lt (depth_unanswered h)

theorem Dialogue.iterations (h : Dialogue m db p lines es after left) (loop : Loop) :
    es.Pairwise fun e e' => loop.Head e.prompt → loop.Head e'.prompt → e.line.isSome := by
  refine h.depth_lt.imp fun {e e'} hlt hhead hhead' => ?_
  rw [Option.isSome_iff_ne_none]
  exact fun hnone => (hlt hnone).ne (hhead'.depth_eq hhead)

theorem Dialogue.exit (h : Dialogue m db p lines es after left) :
    ∃ front last, es = front ++ [last] ∧ last.Ends ∧ (∀ e ∈ front, ¬ e.Ends) ∧
      (last.line = none → left = []) := by
  induction h with
  | @last _ _ _ lines _ h =>
    refine ⟨[], _, rfl, respond_next_eq_none.1 (congrArg Turn.next h), nofun, fun hnone => ?_⟩
    obtain rfl : lines = [] := List.head?_eq_none_iff.1 hnone
    rfl
  | @step db _ _ p _ lines _ _ _ h _ ih =>
    obtain ⟨front, last, rfl, hlast, hfront, hleft⟩ := ih
    refine ⟨_ :: front, last, rfl, hlast, List.forall_mem_cons.2 ⟨fun hends => ?_, hfront⟩, hleft⟩
    have hnone : (respond m db p lines.head?).next = none := respond_next_eq_none.2 hends
    rw [h] at hnone
    cases hnone

theorem Dialogue.menus (h : Dialogue m db p lines es after left) :
    es.countP (·.prompt = .choice) ≤ lines.length + 1 := by
  obtain ⟨front, last, hes, -, hfront, -⟩ := h.exit
  have hline : ∀ e ∈ front, decide (e.prompt = .choice) → e.line.isSome := by
    intro e he hchoice
    rw [Option.isSome_iff_ne_none]
    intro hnone
    exact hfront e he ⟨of_decide_eq_true hchoice, by simp [hnone]⟩
  have hread : (front.filterMap (·.line)).length ≤ lines.length := by
    rw [← h.reads, hes, List.filterMap_append]
    simp only [List.length_append]
    omega
  rw [List.length_filterMap_eq_countP] at hread
  rw [hes, List.countP_append, List.countP_singleton]
  have hmono := List.countP_mono_left hline
  split <;> omega

end Dialogue

/-- On an input that is valid UTF-8 the menu comes to its end without an error. It asks for the
choice at most once more than there are lines, every iteration of its loops reads a line, and
nothing behind the first choice to exit is read. -/
theorem run_ends (m : Setting) (db : σ) {bytes : Text.Utf8.Bytes}
    (h : (Text.Utf8.decode? bytes).isSome) :
    (Input.ofBytes bytes).lines.length = (rawLines bytes).length ∧
      ∃ es left,
        Ended m db (Input.ofBytes bytes).lines es left (run m db (Input.ofBytes bytes)) := by
  obtain ⟨text, htext⟩ := Option.isSome_iff_exists.1 h
  obtain ⟨lines, hinput, hlength, -⟩ := Text.ofBytes_of_decode? htext
  obtain ⟨es, after, left, hes, hrun⟩ := exists_dialogue (m := m) db .choice lines
  rw [run, hinput]
  refine ⟨hlength, es, left, ?_⟩
  dsimp only
  rw [hrun]
  exact ⟨rfl, hes, rfl, hes.reads, hes.menus, hes.iterations, hes.exit⟩

/-- An input that ends while an endpoint is entered by hand, after a root that is missing. -/
theorem run_ends_within_entry :
    let m : Setting := ⟨⟨[], []⟩, "/home", 0, 0, false, .standard, none⟩
    let bytes := Text.Utf8.encode "1\ngone\n2\nv\na\n/api/é".toList
    (Text.Utf8.decode? bytes).isSome ∧ (Input.ofBytes bytes).lines.length = 6 ∧
      ∃ es left, Ended m Database.empty (Input.ofBytes bytes).lines es left
        (run m Database.empty (Input.ofBytes bytes)) := by
  intro m bytes
  have hvalid : (Text.Utf8.decode? bytes).isSome := by decide
  obtain ⟨hlength, hended⟩ := run_ends m Database.empty hvalid
  exact ⟨hvalid, hlength.trans (by decide), hended⟩

end EndpointCatalog.Menu
