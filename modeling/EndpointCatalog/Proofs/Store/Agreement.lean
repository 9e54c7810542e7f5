import EndpointCatalog.Proofs.Store.Reachable
import Mathlib.Data.Option.Defs

/-! Two stores side by side. Stores are alike if they have the same rows and refuse the
same insertions, whatever else they hold. Every operation does the same to both of them:
it fails on both or on neither, its answers agree, and the stores stay alike. So do the
answers to all the operations of a list. -/

namespace EndpointCatalog

open StoreView

section Alike

variable {σ τ : Type} [LawfulStore σ] [LawfulStore τ]

structure Alike (s : σ) (t : τ) : Prop where
  rows_eq : rows s = rows t
  refuses_eq : ∀ i, refuses (setting s) i = refuses (setting t) i
  sound : (rows s).Sound

theorem Alike.admits_iff {s : σ} {t : τ} (h : Alike s t) (i : Insertion) :
    Admits s i ↔ Admits t i := by
  rw [Admits, Admits, h.rows_eq, h.refuses_eq]

theorem Alike.inserts {s s' : σ} {t t' : τ} (h : Alike s t) {i : Insertion}
    (hs : Inserts s i s') (ht : Inserts t i t') : Alike s' t' where
  rows_eq := by rw [hs.rows_eq, ht.rows_eq, h.rows_eq]
  refuses_eq := by
    rw [hs.setting_eq, ht.setting_eq]
    exact h.refuses_eq
  sound := by
    rw [hs.rows_eq]
    exact h.sound.insert hs.admits.1

/-- Two runs end with related values or both with a failure, and in stores that are alike. -/
inductive EndAlike {α β : Type} (R : α → β → Prop) :
    EStateM.Result StoreError σ α → EStateM.Result StoreError τ β → Prop
  | ok {a : α} {b : β} {s : σ} {t : τ} : R a b → Alike s t → EndAlike R (.ok a s) (.ok b t)
  | error {e f : StoreError} {s : σ} {t : τ} : Alike s t → EndAlike R (.error e s) (.error f t)

/-- The two changes do the same to stores that are alike. -/
def Agree {α β : Type} (R : α → β → Prop) (x : StoreM σ α) (y : StoreM τ β) : Prop :=
  ∀ ⦃s t⦄, Alike s t → EndAlike R (x.run s) (y.run t)

namespace Agree

variable {α β γ δ : Type} {R : α → β → Prop} {S : γ → δ → Prop}

theorem pure {a : α} {b : β} (h : R a b) : Agree R (Pure.pure a : StoreM σ α)
    (Pure.pure b : StoreM τ β) :=
  fun _ _ hs => .ok h hs

/-- Reading the stores gives stores that are alike. -/
theorem get : Agree Alike (get : StoreM σ σ) (get : StoreM τ τ) := fun _ _ hs => .ok hs hs

theorem bind {x : StoreM σ α} {y : StoreM τ β} {f : α → StoreM σ γ} {g : β → StoreM τ δ}
    (h : Agree R x y) (hf : ∀ a b, R a b → Agree S (f a) (g b)) :
    Agree S (x >>= f) (y >>= g) := by
  intro s t hs
  have hend := h hs
  rw [EStateM.run_bind, EStateM.run_bind]
  generalize x.run s = p at hend ⊢
  generalize y.run t = q at hend ⊢
  cases hend with
  | ok hR hs' => exact hf _ _ hR hs'
  | error hs' => exact .error hs'

theorem map {x : StoreM σ α} {y : StoreM τ β} {f : α → γ} {g : β → δ} (h : Agree R x y)
    (hf : ∀ a b, R a b → S (f a) (g b)) :
    Agree S (x >>= fun a => Pure.pure (f a)) (y >>= fun b => Pure.pure (g b)) :=
  h.bind fun a b hR => pure (hf a b hR)

theorem forM {f : α → StoreM σ Unit} {g : α → StoreM τ Unit} (h : ∀ a, Agree Eq (f a) (g a))
    (as : List α) : Agree Eq (as.forM f) (as.forM g) := by
  induction as with
  | nil => exact pure rfl
  | cons a as ih => exact (h a).bind fun _ _ _ => ih

/-- A change that is undone when it fails leaves the stores as they were, and so alike. -/
theorem atomically {x : StoreM σ α} {y : StoreM τ β} (h : Agree R x y) :
    Agree R x.atomically y.atomically := by
  intro s t hs
  have hend := h hs
  rw [StoreM.atomically_run, StoreM.atomically_run]
  generalize x.run s = p at hend ⊢
  generalize y.run t = q at hend ⊢
  cases hend with
  | ok hR hs' => exact .ok hR hs'
  | error _ => exact .error hs

theorem attempts {x : StoreM σ α} {y : StoreM τ α} (i : Insertion) (next : Rows → α)
    (hx : ∀ s, Attempts x s i (next (rows s))) (hy : ∀ t, Attempts y t i (next (rows t))) :
    Agree Eq x y := by
  intro s t hs
  rcases hx s with ⟨s', hs', his⟩ | ⟨e, he, hns⟩
  · rcases hy t with ⟨t', ht', hit⟩ | ⟨f, hf, hnt⟩
    · rw [hs', ht', hs.rows_eq]
      exact .ok rfl (hs.inserts his hit)
    · exact absurd ((hs.admits_iff i).1 his.admits) hnt
  · rcases hy t with ⟨t', ht', hit⟩ | ⟨f, hf, hnt⟩
    · exact absurd ((hs.admits_iff i).2 hit.admits) hns
    · rw [he, hf]
      exact .error hs

end Agree

theorem createPage_agree (id : PageIdentity) :
    Agree Eq (Store.createPage id.folder id.controller : StoreM σ Page)
      (Store.createPage id.folder id.controller : StoreM τ Page) :=
  .attempts (.page id) (·.nextPage id) (LawfulStore.createPage_attempts · id)
    (LawfulStore.createPage_attempts · id)

theorem createEndpoint_agree (e : NewEndpoint) :
    Agree Eq (Store.createEndpoint e : StoreM σ Endpoint)
      (Store.createEndpoint e : StoreM τ Endpoint) :=
  .attempts (.endpoint e) (·.nextEndpoint e) (LawfulStore.createEndpoint_attempts · e)
    (LawfulStore.createEndpoint_attempts · e)

theorem createEndpoints_agree (batch : List NewEndpoint) :
    Agree Eq (Store.createEndpoints batch : StoreM σ Unit)
      (Store.createEndpoints batch : StoreM τ Unit) := by
  rw [LawfulStore.createEndpoints_eq, LawfulStore.createEndpoints_eq]
  refine (Agree.forM (fun e => ?_) batch).atomically
  exact (createEndpoint_agree e).map fun _ _ _ => rfl

theorem findOrCreatePage_agree (id : PageIdentity) :
    Agree Eq (Store.findOrCreatePage id.folder id.controller : StoreM σ (Page × Bool))
      (Store.findOrCreatePage id.folder id.controller : StoreM τ (Page × Bool)) := by
  refine Agree.get.bind fun s t h => ?_
  rw [LawfulStore.findPage_eq, LawfulStore.findPage_eq, h.rows_eq]
  cases (rows t).page? id with
  | some page => exact .pure rfl
  | none => exact (createPage_agree id).map fun _ _ hp => by rw [hp]

end Alike

/-! ### Listing -/

def Rows.pageEndpoints (r : Rows) (pageId : Int) : List Endpoint :=
  r.endpoints.filter (·.pageId = pageId)

/-- A store that lists the endpoints of a page as they were inserted, and the pages in an
order of its own. -/
class ListingStore (σ : Type) extends LawfulStore σ where
  pageEndpoints_eq {s : σ} (sound : (rows s).Sound) (pageId : Int) :
    pageEndpoints s pageId = (rows s).pageEndpoints pageId
  pages_perm (s : σ) : (pages s).Perm (rows s).pages

instance : ListingStore MemoryStore where
  pageEndpoints_eq _ _ := rfl
  pages_perm _ := List.Perm.refl _

theorem Rows.pairwise_numbers (n : Nat) : (numbers n).Pairwise (· < ·) := by
  rw [numbers, List.pairwise_map]
  exact List.pairwise_lt_range.imp fun h => by omega

theorem Rows.Sound.pairwise_endpoints {r : Rows} (h : r.Sound) :
    r.endpoints.Pairwise fun d e => d.id < e.id := by
  have hids := pairwise_numbers r.endpoints.length
  rwa [← h.endpoint_ids, List.pairwise_map] at hids

instance : ListingStore Database where
  pageEndpoints_eq sound pageId := by
    refine List.mergeSort_of_pairwise ((sound.pairwise_endpoints.filter _).imp fun h => ?_)
    simpa using Int.le_of_lt h
  pages_perm _ := List.mergeSort_perm _ _

/-! ### Operations -/

/-- Answers that are the same, where the order of pages does not matter. -/
def Answer.Agrees : Answer → Answer → Prop
  | .pages ps, .pages qs => ps.Perm qs
  | a, b => a = b

theorem Answer.Agrees.refl (a : Answer) : a.Agrees a := by
  cases a with
  | pages ps => exact List.Perm.refl ps
  | _ => rfl

namespace Operation

section Answers

variable {σ : Type} [Store σ]

/-- The answer of an operation, if it succeeds. -/
def answer? (o : Operation) (s : σ) : Option Answer :=
  match o.perform.run s with
  | .ok a _ => some a
  | .error _ _ => none

/-- The answers of operations that are performed one after the other. -/
def answers : List Operation → σ → List (Option Answer)
  | [], _ => []
  | o :: os, s => o.answer? s :: answers os (o.after s)

end Answers

variable {σ τ : Type} [ListingStore σ] [ListingStore τ]

theorem perform_agree (o : Operation) :
    Agree Answer.Agrees (o.perform : StoreM σ Answer) (o.perform : StoreM τ Answer) := by
  have same {α : Type} (f : α → Answer) (a b : α) (h : a = b) : (f a).Agrees (f b) :=
    h ▸ Answer.Agrees.refl (f a)
  cases o with
  | findPage id =>
    refine Agree.get.map fun s t h => same _ _ _ ?_
    rw [LawfulStore.findPage_eq, LawfulStore.findPage_eq, h.rows_eq]
  | pageEndpoints pageId =>
    refine Agree.get.map fun s t h => same _ _ _ ?_
    rw [ListingStore.pageEndpoints_eq h.sound, ListingStore.pageEndpoints_eq (h.rows_eq ▸ h.sound),
      h.rows_eq]
  | endpointExists pageId url =>
    refine Agree.get.map fun s t h => same _ _ _ ?_
    rw [LawfulStore.endpointExists_eq, LawfulStore.endpointExists_eq, h.rows_eq]
  | pages =>
    refine Agree.get.map fun s t h => ?_
    have ht := (ListingStore.pages_perm t).symm
    rw [← h.rows_eq] at ht
    exact (ListingStore.pages_perm s).trans ht
  | createPage id => exact (createPage_agree id).map (same _)
  | findOrCreatePage id =>
    exact (findOrCreatePage_agree id).map (same fun p : Page × Bool => .opened p.1 p.2)
  | createEndpoint e => exact (createEndpoint_agree e).map (same _)
  | createEndpoints batch => exact (createEndpoints_agree batch).map fun _ _ _ => rfl

/-- One operation on two stores that are alike. -/
theorem answer?_alike (o : Operation) {s : σ} {t : τ} (h : Alike s t) :
    Option.Rel Answer.Agrees (o.answer? s) (o.answer? t) ∧ Alike (o.after s) (o.after t) := by
  have hend := o.perform_agree h
  simp only [answer?, after, finalState]
  generalize o.perform.run s = p at hend ⊢
  generalize o.perform.run t = q at hend ⊢
  cases hend with
  | ok hR hs => exact ⟨.some hR, hs⟩
  | error hs => exact ⟨.none, hs⟩

theorem answers_alike (os : List Operation) {s : σ} {t : τ} (h : Alike s t) :
    List.Forall₂ (Option.Rel Answer.Agrees) (answers os s) (answers os t) := by
  induction os generalizing s t with
  | nil => exact .nil
  | cons o os ih =>
    obtain ⟨hanswer, hafter⟩ := o.answer?_alike h
    exact .cons hanswer (ih hafter)

end Operation

theorem alike_empty : Alike MemoryStore.empty Database.empty where
  rows_eq := rfl
  refuses_eq i := by cases i <;> rfl
  sound := Rows.Sound.empty

end EndpointCatalog
