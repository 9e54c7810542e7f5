import EndpointCatalog.Scan.Run

/-! Scans that are recorded. A scan opens a session in its store and closes it as
completed, with the counts of its summary, or as failed. A root that is missing is
reported before anything is written. -/

namespace EndpointCatalog.Scan

variable {σ : Type} [RecordingStore σ]

/-- Closes a session according to how its scan went. If it cannot be marked as completed,
that is reported in place of the summary; the failure of a scan is always reported itself. -/
def close (ended : Int) (session : Nat) (o : Outcome σ) : Except CatalogError Summary × σ :=
  match o.result with
  | .ok summary =>
    match (RecordingStore.completeSession ended session summary.filesScanned
      summary.endpointsAdded).run o.store with
    | .ok _ store => (.ok summary, store)
    | .error e store => (.error (.store e), store)
  | .error e =>
    match (RecordingStore.failSession ended session).run o.store with
    | .ok _ store => (.error e, store)
    | .error _ store => (.error e, store)

/-- A scan whose session is opened at the time `started` and closed at the time `ended`. -/
def scanRecorded (tree : FileTree) (started ended : Int) (options : ScanOptions) (root : Path)
    (store : σ) : Except CatalogError Summary × σ :=
  if (tree.folder? root).isNone then (.error (.rootNotFound root), store)
  else
    match (RecordingStore.createSession started root.text).run store with
    | .error e store => (.error (.store e), store)
    | .ok session store => close ended session (scanRoot tree options root store)

end EndpointCatalog.Scan
