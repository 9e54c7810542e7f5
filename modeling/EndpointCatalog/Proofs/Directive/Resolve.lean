import EndpointCatalog.Directive.Resolve
import EndpointCatalog.Proofs.Distinct

/-! The urls that a text has from scripts. A url is located where the text first refers to
a script that can be read and has it. -/

namespace EndpointCatalog.Directive

section Target

variable (tree : FileTree) (letters : LetterCase)

/-- The script of the target can be read and has the url. -/
def Target.Has (t : Target) (url : String) : Prop :=
  ∃ script, tree.read t.path = .ok script ∧ url ∈ scriptEndpoints letters script

/-- The endpoint that the target adds for a url, if any. -/
def Target.endpoint? (t : Target) (url : String) : Option Located :=
  (t.read tree letters).toOption.bind (·.find? (·.value == url))

end Target

variable {tree : FileTree} {letters : LetterCase} {url : String}

theorem Target.endpoint?_eq_some {t : Target} {l : Located} :
    t.endpoint? tree letters url = some l ↔
      l = ⟨url, t.reference.offset⟩ ∧ t.Has tree letters url := by
  rw [endpoint?, Target.read, Target.Has]
  cases tree.read t.path with
  | error e => simp [Except.toOption]
  | ok script =>
    simp only [Except.toOption, Option.bind_some, List.find?_map, Option.map_eq_some_iff,
      Except.ok.injEq, exists_eq_left']
    constructor
    · rintro ⟨u, hu, rfl⟩
      obtain rfl : u = url := by simpa using List.find?_some hu
      exact ⟨rfl, List.mem_of_find?_eq_some hu⟩
    · rintro ⟨rfl, hu⟩
      have hsome : ((scriptEndpoints letters script).find? (fun u => u == url)).isSome :=
        List.find?_isSome.2 ⟨url, hu, beq_self_eq_true url⟩
      obtain ⟨u, hfind⟩ := Option.isSome_iff_exists.1 hsome
      obtain rfl : u = url := by simpa using List.find?_some hfind
      exact ⟨u, hfind, rfl⟩

theorem Target.endpoint?_eq_none {t : Target} :
    t.endpoint? tree letters url = none ↔ ¬ t.Has tree letters url := by
  constructor
  · intro hn h
    rw [endpoint?_eq_some.2 ⟨rfl, h⟩] at hn
    cases hn
  · intro h
    rw [Option.eq_none_iff_forall_ne_some]
    exact fun l hl => h (endpoint?_eq_some.1 hl).2

theorem find?_resolve (base : Path) (text : List Char) :
    (resolve tree base letters text).endpoints.find? (·.value == url) =
      (targets base text).findSome? (·.endpoint? tree letters url) := by
  simp only [resolve]
  rw [find?_distinctBy, List.find?_flatten, List.filterMap_map]
  induction targets base text with
  | nil => rfl
  | cons t ts ih =>
    rw [List.filterMap_cons, List.findSome?_cons, Target.endpoint?, Function.comp_apply]
    cases (t.read tree letters).toOption with
    | none => exact ih
    | some ls =>
      rw [List.findSome?_cons, ih]
      rfl

end EndpointCatalog.Directive
