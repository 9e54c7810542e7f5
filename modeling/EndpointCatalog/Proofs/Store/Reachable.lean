import EndpointCatalog.Proofs.Store.Extension

/-! The operations of a store. Each of them, also one that fails, extends the store. The
stores they lead to from an empty one have sound rows. -/

namespace EndpointCatalog

open StoreView

/-- An operation of a store; the first four are questions. -/
inductive Operation
  | findPage (id : PageIdentity)
  | pageEndpoints (pageId : Int)
  | endpointExists (pageId : Int) (url : String)
  | pages
  | createPage (id : PageIdentity)
  | findOrCreatePage (id : PageIdentity)
  | createEndpoint (e : NewEndpoint)
  | createEndpoints (batch : List NewEndpoint)

inductive Answer
  | nothing
  | yes (b : Bool)
  | page (p : Option Page)
  | opened (p : Page) (created : Bool)
  | pages (ps : List Page)
  | endpoint (e : Endpoint)
  | endpoints (es : List Endpoint)

namespace Operation

def perform {σ : Type} [Store σ] : Operation → StoreM σ Answer
  | findPage id => do return .page (Store.findPage (← get) id.folder id.controller)
  | pageEndpoints pageId => do return .endpoints (Store.pageEndpoints (← get) pageId)
  | endpointExists pageId url => do return .yes (Store.endpointExists (← get) pageId url)
  | pages => do return .pages (Store.pages (← get))
  | createPage id => do return .page (← Store.createPage id.folder id.controller)
  | findOrCreatePage id => do
    let (p, created) ← Store.findOrCreatePage id.folder id.controller
    return .opened p created
  | createEndpoint e => do return .endpoint (← Store.createEndpoint e)
  | createEndpoints batch => do
    Store.createEndpoints batch
    return .nothing

/-- The store that an operation leaves behind, also when it fails. -/
def after {σ : Type} [Store σ] (o : Operation) (s : σ) : σ := finalState o.perform s

end Operation

variable {σ : Type} [LawfulStore σ]

theorem Operation.extends_after (o : Operation) (s : σ) : Extends s (o.after s) := by
  have h : Follows Extends (o.perform : StoreM σ Answer) := by
    cases o with
    | findPage | pageEndpoints | endpointExists | pages =>
      exact Follows.get.bind fun s => Follows.pure _
    | createPage id => exact (createPage_follows _ _).bind fun p => Follows.pure _
    | findOrCreatePage id =>
      exact (createPage_follows _ _).findOrCreatePage.bind fun p => Follows.pure _
    | createEndpoint e => exact (createEndpoint_follows e).bind fun d => Follows.pure _
    | createEndpoints batch => exact (createEndpoints_follows batch).bind fun _ => Follows.pure _
  exact h s

/-- The stores that operations lead to from an empty one. What a store holds beside its
rows may change at any time. -/
inductive Reachable : σ → Prop
  | empty {s : σ} : rows s = .empty → Reachable s
  | operation {s : σ} (o : Operation) : Reachable s → Reachable (o.after s)
  | setting {s t : σ} : rows t = rows s → Reachable s → Reachable t

theorem Reachable.sound {s : σ} (h : Reachable s) : (rows s).Sound := by
  induction h with
  | empty h => exact h ▸ Rows.Sound.empty
  | operation o _ ih => exact (o.extends_after _).sound ih
  | setting h _ ih => exact h ▸ ih

theorem Reachable.memory : Reachable MemoryStore.empty := .empty rfl

theorem Reachable.database : Reachable Database.empty := .empty rfl

end EndpointCatalog
