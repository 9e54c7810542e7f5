import EndpointCatalog.Menu.Basic
import EndpointCatalog.Text.Input

/-! A run of the menu over a whole input. Every line answers the prompt that is open
when it is read; reading stops at the choice to exit, at the end of the input, or
at a line that is not valid UTF-8. -/

namespace EndpointCatalog.Menu

/-- What a run shows and leaves behind, and whether it broke off at an unreadable line. -/
structure Transcript (σ : Type) where
  output : String
  db : σ
  broken : Bool

def Transcript.after {σ : Type} (shown : String) (t : Transcript σ) : Transcript σ :=
  { t with output := shown ++ t.output }

variable {σ : Type} [RecordingStore σ] (m : Setting)

/-- The run from an open prompt over the lines that remain. -/
def converse (broken : Bool) (db : σ) (prompt : Prompt) : List String → Transcript σ
  | [] =>
    if broken then ⟨prompt.text m, db, true⟩
    else
      let (shown, db) := finish m db prompt
      ⟨prompt.text m ++ shown, db, false⟩
  | line :: rest =>
    let turn := answer m db prompt line
    let shown := prompt.text m ++ turn.shown
    match turn.next with
    | none => ⟨shown, turn.db, false⟩
    | some next => (converse broken turn.db next rest).after shown

def run (db : σ) (input : Text.Input) : Transcript σ :=
  converse m input.broken db .choice input.lines

end EndpointCatalog.Menu
