import EndpointCatalog.Config

/-! What a scan is asked to do. The words of a request go before those of the
configuration, but a request can only turn switches on. A leading `~` in a path
stands for the home directory. -/

namespace EndpointCatalog

/-- What a request for a scan says about its options. -/
structure Overrides where
  directiveRoot : Option Path
  fileSuffix : Option String
  batched : Bool
  lowercaseDirectives : Bool
  policy : Option RedirectPolicy
  deriving DecidableEq, Repr

namespace Overrides

/-- The request that says nothing. -/
def nothing : Overrides := ⟨none, none, false, false, none⟩

def apply (o : Overrides) (options : ScanOptions) : ScanOptions where
  fileSuffix := o.fileSuffix.getD options.fileSuffix
  directiveRoot := o.directiveRoot.or options.directiveRoot
  letters := if o.lowercaseDirectives then .lower else options.letters
  policy := o.policy.getD options.policy
  persistence := if o.batched then .batched else options.persistence

end Overrides

namespace Config

/-- The options of a scan that is asked for. -/
def scanOptionsWith (home : String) (o : Overrides) (c : Config) : ScanOptions :=
  o.apply { c.scanOptions with directiveRoot := c.directiveRoot.map (Path.expand home) }

/-- The root of a scan, which a request may name. -/
def scanRoot (home : String) (named : Option String) (c : Config) : Option Path :=
  (named.or c.root).map (Path.expand home)

end Config

end EndpointCatalog
