import EndpointCatalog.Files.Change
import EndpointCatalog.Store.Codec
import EndpointCatalog.Store.Sqlite

/-! A plain stand-in for SQLite, for running the program where there is none. It keeps all
tables in the database file itself and needs no other files, but like SQLite it refuses a
file that holds something else, a path that is too long, and a file that it could not
have beside the database. -/

namespace EndpointCatalog.Database

/-! ### Tables as bytes -/

def pageCodec : Codec Page :=
  (Codec.int.pair (Codec.string.pair Codec.string)).via
    (fun p => (p.id, p.folder, p.controller)) (fun r => ⟨r.1, r.2.1, r.2.2⟩) (fun _ => rfl)

def endpointCodec : Codec Endpoint :=
  (Codec.int.pair (Codec.int.pair (Codec.string.pair Codec.string))).via
    (fun e => (e.id, e.pageId, e.url, e.redirect))
    (fun r => ⟨r.1, r.2.1, r.2.2.1, r.2.2.2⟩) (fun _ => rfl)

def statusCodec : Codec SessionStatus :=
  Codec.nat.via
    (fun | .running => 0 | .completed => 1 | .failed => 2)
    (fun | 0 => .running | 1 => .completed | _ => .failed)
    (by intro s; cases s <;> rfl)

def sessionCodec : Codec Session :=
  (Codec.nat.pair (Codec.string.pair (Codec.int.pair (Codec.int.option.pair
    (statusCodec.pair (Codec.nat.pair Codec.nat)))))).via
    (fun s => (s.id, s.root, s.started, s.ended, s.status, s.filesScanned, s.endpointsAdded))
    (fun r => ⟨r.1, r.2.1, r.2.2.1, r.2.2.2.1, r.2.2.2.2.1, r.2.2.2.2.2.1, r.2.2.2.2.2.2⟩)
    (fun _ => rfl)

def tableCodec : Codec Table :=
  Codec.nat.via
    (fun | .pages => 0 | .endpoints => 1 | .sessions => 2)
    (fun | 0 => .pages | 1 => .endpoints | _ => .sessions)
    (by intro t; cases t <;> rfl)

def guardCodec : Codec Guard :=
  (tableCodec.pair (Codec.string.option.pair Codec.string)).via
    (fun g => (g.table, g.url, g.message)) (fun r => ⟨r.1, r.2.1, r.2.2⟩) (fun _ => rfl)

def codec : Codec Database :=
  (pageCodec.list.pair (Codec.int.pair (endpointCodec.list.pair (Codec.int.pair
    (sessionCodec.list.pair guardCodec.list))))).via
    (fun d => (d.pages, d.lastPageId, d.endpoints, d.lastEndpointId, d.sessions, d.guards))
    (fun r => ⟨r.1, r.2.1, r.2.2.1, r.2.2.2.1, r.2.2.2.2.1, r.2.2.2.2.2⟩) (fun _ => rfl)

end EndpointCatalog.Database

namespace EndpointCatalog.Sqlite

/-- The first bytes of a database file. The last of them begins no character. -/
def mark : Bytes := Text.Utf8.encode "SQLite format 3\x00".toList ++ [0xFF]

def toBytes (db : Database) : Bytes := mark ++ Database.codec.encode db

def ofBytes? (bytes : Bytes) : Option Database :=
  if mark.isPrefixOf bytes then
    match Database.codec.decode (bytes.drop mark.length) with
    | some (db, []) => some db
    | _ => none
  else none

theorem ofBytes?_toBytes (db : Database) : ofBytes? (toBytes db) = some db := by
  have h := Database.codec.decode_encode db []
  rw [List.append_nil] at h
  have hp : mark.isPrefixOf (mark ++ Database.codec.encode db) = true := by simp
  simp only [ofBytes?, toBytes, hp, if_true, List.drop_left, h]

/-- The most bytes that the full path of a database may have together with an ending. -/
def maxPathSize : Nat := 512

/-- The size of the path of a location. -/
def pathSize (loc : Location) : Nat :=
  loc.foldr (fun name size => name.utf8ByteSize + 1 + size) 0

/-- Whether something other than a file stands where a file beside a database belongs. -/
def isBlocked (t : FileTree) (loc : Location) : Bool :=
  (beside loc).any fun place =>
    match t.entry? place with
    | some .folder => true
    | some (.link _) => true
    | _ => false

def unopened : DatabaseFailure :=
  .reported "unable to open database file" "Error code 14: Unable to open the database file"

/-- Begins a database. A file that holds nothing stays behind if that fails. -/
def begin (loc : Location) : EStateM DatabaseFailure FileTree Database := do
  let t ← get
  if isBlocked t loc then
    set (t.put loc (.file []))
    throw unopened
  else
    set (t.put loc (.file (toBytes .empty)))
    return .empty

/-- Opens a database. A file of one byte at most counts as missing. -/
def openAt (p : Path) (loc : Location) : EStateM DatabaseFailure FileTree Database := do
  let t ← get
  match t.entry? loc with
  | none => begin loc
  | some (.file bytes) =>
    if bytes.length ≤ 1 then begin loc
    else
      match ofBytes? bytes with
      | some db => if isBlocked t loc then throw unopened else return db
      | none => throw .notDatabase
  | some .folder => throw (.cannotOpen p)
  | some (.link _) => throw (.cannotOpen p)

def saveAt (loc : Location) (db : Database) : EStateM DatabaseFailure FileTree Unit := do
  let t ← get
  match t.entry? loc with
  | some (.file _) => set (t.put loc (.file (toBytes db)))
  | _ => throw (.reported "disk I/O error" "Error code 10: Some kind of disk I/O error occurred")

/-- The path in a URI, which must be that of a file, without escapes or parameters. -/
def uriPath? (p : Path) : Option Path :=
  let rest := p.text.toList.drop "file:".length
  if "//".toList.isPrefixOf rest || rest.any "%?#".toList.contains then none
  else some ⟨String.ofList rest⟩

/-- The location that a path names, if it is short enough. -/
def placeOf (t : FileTree) (p : Path) : Except DatabaseFailure Location :=
  let within (loc : Location) : Except DatabaseFailure Location :=
    if maxPathSize < pathSize loc + "-journal".utf8ByteSize then .error (.cannotOpen p)
    else .ok loc
  match (if isUri p then uriPath? p else some p).map (t.lookup .writing) with
  | some (.ok (.found loc _)) => within loc
  | some (.ok (.missing folder name)) => within (folder ++ [name])
  | _ => .error (.cannotOpen p)

def plain : Sqlite where
  place := placeOf
  connect := openAt
  commit loc _ after := saveAt loc after
  disconnect _ t := t

end EndpointCatalog.Sqlite
