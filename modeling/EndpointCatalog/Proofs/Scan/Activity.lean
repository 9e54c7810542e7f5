import EndpointCatalog.Manual
import EndpointCatalog.Proofs.Scan.Outcome
import EndpointCatalog.Proofs.Store.Extension

/-! What may happen to a store: scans, of any tree and with any outcome, and entries by
hand. All of it comes down to rows that are created, so that it follows every preorder that
creating rows follows; above all it only extends the store. -/

namespace EndpointCatalog

section Preorder

variable {σ : Type} [Store σ] {R : σ → σ → Prop} [IsPreorder σ R]

/-! ### Entries by hand -/

namespace Manual

/-- Entering an endpoint follows a preorder if creating one with an url that is not blank does. -/
theorem addEntry_follows {pageId : Int} {e : Entry}
    (h : Text.trim e.url ≠ "" → Follows R (Store.createEndpoint
      ⟨pageId, Text.trim e.url, Text.trim e.redirect⟩ : StoreM σ Endpoint)) :
    Follows R (addEntry pageId e : StoreM σ Bool) := by
  refine Follows.get.bind fun s => ?_
  split
  · exact Follows.pure false
  next hskip =>
    have hne : Text.trim e.url ≠ "" := by
      intro hempty
      simp [hempty] at hskip
    exact (h hne).bind fun _ => Follows.pure true

theorem add_follows {folder controller : String}
    (hpage : Follows R (Store.createPage (Text.trim folder) (Text.trim controller) : StoreM σ Page))
    (hentry : ∀ pageId e, Follows R (addEntry pageId e : StoreM σ Bool)) (entries : List Entry) :
    Follows R (add folder controller entries : StoreM σ Account) := by
  refine hpage.findOrCreatePage.bind fun opened => ?_
  exact (Follows.mapM (hentry opened.1.id) entries).bind fun news => Follows.pure _

theorem add_follows_of_creates (h : Creates R) (folder controller : String)
    (entries : List Entry) : Follows R (add folder controller entries : StoreM σ Account) :=
  add_follows (h.page _ _) (fun _ _ => addEntry_follows fun _ => h.endpoint _) entries

end Manual

/-! ### Scans -/

namespace Scan

/-- The stores of two states are related. -/
def State.Lifted (R : σ → σ → Prop) (st st' : State σ) : Prop := R st.store st'.store

instance : IsPreorder (State σ) (State.Lifted R) where
  refl st := refl_of R st.store
  trans st _ _ := trans_of R (a := st.store)

omit [Store σ] [IsPreorder σ R] in
theorem onStore_follows {α : Type} {change : StoreM σ α} (h : Follows R change) :
    Follows (State.Lifted R) (onStore change) := by
  intro st
  have hs := h st.store
  simp only [finalState, onStore_run] at hs ⊢
  cases hr : change.run st.store with
  | ok a t =>
    rw [hr] at hs
    exact hs
  | error e t =>
    rw [hr] at hs
    exact hs

omit [Store σ] in
theorem visit_follows (path : Path) : Follows (State.Lifted R) (visit path : ScanM σ Unit) :=
  fun st => refl_of R st.store

section Creates

variable (h : Creates R)
include h

theorem addEndpoint_follows (persistence : Persistence) (e : NewEndpoint) :
    Follows (State.Lifted R) (addEndpoint persistence e : ScanM σ Bool) := by
  cases persistence with
  | incremental =>
    refine Follows.get.bind fun st => ?_
    split
    · exact Follows.pure false
    · exact (onStore_follows (h.endpoint e)).bind fun _ => Follows.pure true
  | batched =>
    intro st
    -- What waits is set from the state that was read, so the store stays what it was.
    have hst : (finalState (addEndpoint .batched e) st).store = st.store := by
      simp only [finalState, addEndpoint, EStateM.run_bind, EStateM.run_get]
      cases Store.endpointExists st.store e.pageId e.url <;> rfl
    rw [State.Lifted, hst]
    exact refl_of R st.store

theorem addController_follows (persistence : Persistence) (path : Path) (c : Controller) :
    Follows (State.Lifted R) (addController persistence path c : ScanM σ PageScan) := by
  refine (onStore_follows (h.page _ _).findOrCreatePage).bind fun opened => ?_
  refine (Follows.mapM (fun x => ?_) c.routes).bind fun found => Follows.pure _
  exact (addEndpoint_follows h persistence _).bind fun added => Follows.pure _

theorem scanFile_follows (tree : FileTree) (options : ScanOptions) (base path : Path) :
    Follows (State.Lifted R) (scanFile tree options base path : ScanM σ PageScan) := by
  refine (visit_follows path).bind fun _ => ?_
  cases Controller.read tree options base path with
  | ok c => exact addController_follows h options.persistence path c
  | error e => exact Follows.throw _

theorem flush_follows : Follows (State.Lifted R) (flush : ScanM σ Unit) := by
  refine Follows.get.bind fun st => ?_
  split
  · exact Follows.pure ()
  · exact onStore_follows (h.endpoints _)

theorem scanAll_follows (tree : FileTree) (options : ScanOptions) (base : Path)
    (files : List Path) :
    Follows (State.Lifted R) (scanAll tree options base files : ScanM σ Summary) := by
  refine (Follows.mapM (scanFile_follows h tree options base) _).bind fun pages => ?_
  exact (flush_follows h).bind fun _ => Follows.pure _

end Creates

omit [Store σ] [IsPreorder σ R] in
theorem Outcome.follows_of {scan : ScanM σ Summary} (h : Follows (State.Lifted R) scan) (s : σ) :
    R s (Outcome.of scan s).store := by
  have hs := h ⟨s, .empty, []⟩
  rw [finalState] at hs
  rw [Outcome.of]
  cases hr : scan.run ⟨s, .empty, []⟩ with
  | ok summary st =>
    rw [hr] at hs
    exact hs
  | error e st =>
    rw [hr] at hs
    exact hs

/-- A scan follows what creating rows follows, also when it fails. -/
theorem Request.follows_run (h : Creates R) (tree : FileTree) (options : ScanOptions) (q : Request)
    (s : σ) : R s (q.run tree options s).store := by
  cases q with
  | listed files => exact Outcome.follows_of (scanAll_follows h tree options _ files) s
  | below root =>
    rw [run, scanRoot]
    split
    next => exact refl_of R s
    next files _ => exact Outcome.follows_of (scanAll_follows h tree options _ files) s

end Scan

end Preorder

variable {σ : Type} [LawfulStore σ]

theorem Manual.add_extends (folder controller : String) (entries : List Entry) :
    Follows Extends (add folder controller entries : StoreM σ Account) :=
  add_follows_of_creates creates_extends folder controller entries

theorem Scan.Request.extends_run (tree : FileTree) (options : ScanOptions) (q : Request) (s : σ) :
    Extends s (q.run tree options s).store :=
  q.follows_run creates_extends tree options s

/-! ### Activities -/

inductive Activity
  | scan (tree : FileTree) (options : ScanOptions) (q : Scan.Request)
  | entry (folder controller : String) (entries : List Manual.Entry)

namespace Activity

/-- The store that an activity leaves behind, also when it fails. -/
def after {σ : Type} [Store σ] : Activity → σ → σ
  | scan tree options q, s => (q.run tree options s).store
  | entry folder controller entries, s => finalState (Manual.add folder controller entries) s

def afterAll {σ : Type} [Store σ] (as : List Activity) (s : σ) : σ :=
  as.foldl (fun t a => a.after t) s

theorem extends_after (a : Activity) (s : σ) : Extends s (a.after s) := by
  cases a with
  | scan tree options q => exact q.extends_run tree options s
  | entry folder controller entries => exact Manual.add_extends folder controller entries s

theorem extends_afterAll (as : List Activity) (s : σ) : Extends s (afterAll as s) := by
  induction as generalizing s with
  | nil => exact refl_of Extends s
  | cons a as ih => exact trans_of Extends (a.extends_after s) (ih _)

end Activity

end EndpointCatalog
