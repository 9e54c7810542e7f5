import EndpointCatalog.Proofs.Directive.Normal
import EndpointCatalog.Proofs.Directive.Account

/-! Endpoints of scripts in lower case. Which lines give an endpoint, and which scripts are
read, does not depend on the letters, so that a resolution in lower case is the one that keeps
the letters, put in lower case afterwards. Only endpoints that become the same are then
counted once, where the first of them is. -/

namespace EndpointCatalog

/-- A value in lower case, where it was found. -/
def Located.lower (l : Located) : Located := { l with value := Text.lower l.value }

namespace Text

theorem lower_ofList (cs : List Char) :
    lower (String.ofList cs) = String.ofList (lowerChars cs) := by
  rw [lower, String.toList_ofList]

theorem lower_lower (s : String) : lower (lower s) = lower s := by
  rw [← String.ofList_toList (s := s), lower_ofList, lower_ofList, lowerChars_lowerChars]

end Text

theorem Located.lower_lower (l : Located) : l.lower.lower = l.lower := by
  rw [lower, lower, Text.lower_lower]

namespace Directive

/-! ### Lines and scripts -/

theorem normalize_lower (raw : List Char) :
    normalize .lower raw = (normalize .preserve raw).map Text.lowerChars := by
  rw [normalize, normalize]
  split <;> rfl

theorem lineEndpoint_lower (line : List Char) :
    lineEndpoint .lower line = (lineEndpoint .preserve line).map Text.lower := by
  rw [lineEndpoint, lineEndpoint]
  cases firstRoute line with
  | none => rfl
  | some raw =>
    rw [Option.bind_some, Option.bind_some, normalize_lower]
    simp [Option.map_map, Function.comp_def, Text.lower_ofList]

theorem scriptEndpoints_lower (script : Text.Utf8.Bytes) :
    scriptEndpoints .lower script = (scriptEndpoints .preserve script).map Text.lower := by
  rw [scriptEndpoints_eq, scriptEndpoints_eq, List.map_filterMap]
  exact congrArg (List.filterMap · _) (funext lineEndpoint_lower)

theorem Target.read_lower (tree : FileTree) (t : Target) :
    t.read tree .lower = (t.read tree .preserve).map (List.map Located.lower) := by
  rw [Target.read, Target.read]
  cases tree.read t.path with
  | error e => rfl
  | ok script =>
    simp only [Except.map, scriptEndpoints_lower, List.map_map]
    rfl

/-! ### Resolutions -/

section Resolve

variable (tree : FileTree) (base : Path) (text : List Char)

theorem outcomes_lower (targets : List Target) : targets.map (·.read tree .lower) =
    (targets.map (·.read tree .preserve)).map (Except.map (List.map Located.lower)) := by
  rw [List.map_map]
  exact List.map_congr_left fun t _ => t.read_lower tree

theorem resolve_skipped_lower :
    (resolve tree base .lower text).skipped = (resolve tree base .preserve text).skipped := by
  simp only [resolve]
  rw [outcomes_lower, List.filterMap_map]
  congr 1
  funext outcome
  cases outcome <;> rfl

theorem resolve_endpoints_lower : (resolve tree base .lower text).endpoints =
    distinctBy (·.value) ((resolve tree base .preserve text).endpoints.map Located.lower) := by
  have hread (outcome : Except Skipped (List Located)) :
      (outcome.map (List.map Located.lower)).toOption =
        outcome.toOption.map (List.map Located.lower) := by
    cases outcome <;> rfl
  have hvalue {l m : Located} (h : l.value = m.value) : l.lower.value = m.lower.value :=
    congrArg Text.lower h
  simp only [resolve]
  rw [distinctBy_map_distinctBy hvalue, List.map_flatten, List.map_filterMap, outcomes_lower,
    List.filterMap_map]
  exact congrArg (fun f => distinctBy _ (List.filterMap f _).flatten) (funext hread)

/-- The same scripts are read in lower case and the same lines give endpoints. The endpoints
are those that keep their letters, in lower case and without repetitions, and to put them in
lower case once more changes none of them. -/
theorem resolve_lower :
    (resolve tree base .lower text).resolved = (resolve tree base .preserve text).resolved ∧
    (resolve tree base .lower text).skipped = (resolve tree base .preserve text).skipped ∧
    (resolve tree base .lower text).endpoints =
      distinctBy (·.value) ((resolve tree base .preserve text).endpoints.map Located.lower) ∧
    (∀ line, lineEndpoint .lower line = (lineEndpoint .preserve line).map Text.lower) ∧
    (resolve tree base .lower text).endpoints.map Located.lower =
      (resolve tree base .lower text).endpoints := by
  refine ⟨by rw [resolve_resolved, resolve_resolved], resolve_skipped_lower tree base text,
    resolve_endpoints_lower tree base text, lineEndpoint_lower, ?_⟩
  have hfixed : ∀ l ∈ (resolve tree base .lower text).endpoints, l.lower = l := by
    intro l hl
    rw [resolve_endpoints_lower] at hl
    obtain ⟨kept, -, rfl⟩ := List.mem_map.1 (mem_of_mem_distinctBy hl)
    exact kept.lower_lower
  exact (List.map_congr_left hfixed).trans (List.map_id _)

end Resolve

end Directive

end EndpointCatalog
