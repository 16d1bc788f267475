import DumpArchive.Document.Decode
import DumpArchive.Namespace

/-! The three header documents of an archive. Reading one looks at the known fields only, in
any order, and refuses a known field that is given twice. -/
namespace DumpArchive

namespace Document

/-- The values under a key, in order. -/
def Fields.values (key : String) : Fields → List Value
  | .nil => []
  | .cons other value rest => if other = key then value :: rest.values key else rest.values key

def Value.string (text : String) : Value := .textual .string text

/-- A string, or generic binary data that is a text. -/
def Value.text? : Value → Option String
  | .textual .string text => some text
  | .binary 0 data => data.toText?
  | _ => none

def Value.boolean? : Value → Option Bool
  | .boolean b => some b
  | _ => none

/-- An integer that fits 32 bits. -/
def Value.int32? : Value → Option Int32
  | .plain .int32 payload => some (Int32.ofInt payload.toInt)
  | .plain .int64 payload =>
    let n := payload.toInt
    if -0x80000000 ≤ n ∧ n < 0x80000000 then some (Int32.ofInt n) else none
  | _ => none

/-- The one value under a key, or what its absence means. -/
def Fields.field? {α : Type} (fields : Fields) (key : String) (read : Value → Option α)
    (absent : Option α) : Option α :=
  match fields.values key with
  | [] => absent
  | [value] => read value
  | _ => none

end Document

open Document (Fields Value)

/-- Written once, after the magic number. -/
structure ArchiveHeader where
  concurrent : Int32
  version : String
  deriving DecidableEq, Repr

/-- Says which namespace the records of a block belong to, or that a namespace has ended. -/
structure CollectionHeader where
  ns : Namespace
  eof : Bool
  deriving DecidableEq, Repr

/-- One namespace of the catalog with its opaque description. -/
structure CatalogEntry where
  ns : Namespace
  metadata : String
  deriving DecidableEq, Repr

namespace ArchiveHeader

def formatVersion : String := "0.1"

def current (concurrent : Int32) : ArchiveHeader := ⟨concurrent, formatVersion⟩

def fields (h : ArchiveHeader) : Fields :=
  .cons "concurrent_collections" (.plain .int32 (Bytes.word h.concurrent.toUInt32.toNat))
    (.cons "version" (.string h.version) .nil)

def ofFields? (fields : Fields) : Option ArchiveHeader := do
  let concurrent ← fields.field? "concurrent_collections" Value.int32? none
  let version ← fields.field? "version" Value.text? none
  return ⟨concurrent, version⟩

def record (h : ArchiveHeader) : Bytes := h.fields.encode

def ofRecord? (record : Bytes) : Option ArchiveHeader :=
  (Fields.decode? record).bind ofFields?

end ArchiveHeader

namespace CollectionHeader

def fields (h : CollectionHeader) : Fields :=
  .cons "db" (.string h.ns.db) (.cons "collection" (.string h.ns.collection)
    (if h.eof then .cons "EOF" (.boolean true) .nil else .nil))

def ofFields? (fields : Fields) : Option CollectionHeader := do
  let db ← fields.field? "db" Value.text? (some "")
  let collection ← fields.field? "collection" Value.text? (some "")
  let eof ← fields.field? "EOF" Value.boolean? (some false)
  return ⟨⟨db, collection⟩, eof⟩

def record (h : CollectionHeader) : Bytes := h.fields.encode

def ofRecord? (record : Bytes) : Option CollectionHeader :=
  (Fields.decode? record).bind ofFields?

end CollectionHeader

namespace CatalogEntry

def fields (e : CatalogEntry) : Fields :=
  .cons "db" (.string e.ns.db) (.cons "collection" (.string e.ns.collection)
    (.cons "metadata" (.string e.metadata) .nil))

def ofFields? (fields : Fields) : Option CatalogEntry := do
  let db ← fields.field? "db" Value.text? (some "")
  let collection ← fields.field? "collection" Value.text? (some "")
  let metadata ← fields.field? "metadata" Value.text? (some "")
  return ⟨⟨db, collection⟩, metadata⟩

def record (e : CatalogEntry) : Bytes := e.fields.encode

def ofRecord? (record : Bytes) : Option CatalogEntry :=
  (Fields.decode? record).bind ofFields?

end CatalogEntry

end DumpArchive
