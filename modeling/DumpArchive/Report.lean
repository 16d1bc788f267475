import DumpArchive.Catalog
import DumpArchive.Json.Print
import DumpArchive.Summary
import DumpArchive.Table

/-! Reports on an archive, in the three output formats. Every report ends in a line end. -/
namespace DumpArchive

inductive OutputFormat where
  | json
  | table
  | pretty
  deriving DecidableEq, Repr

namespace Report

/-- Where the published schemas of the reports are. -/
def schemaBase : String := "https://schemas.3leaps.dev/archivemux/cli/v1/"

def schema (name : String) : String := schemaBase ++ name ++ ".schema.json"

def shownCrc (t : Tally) : String := Hex.padded 8 t.crc.toNat

def natural (n : Nat) : Json := .number n

def row (ns : Namespace) (t : Tally) : Json :=
  .object [("namespace", .text ns.shown), ("records", natural t.records.toNat),
    ("bytes", natural t.bytes.toNat), ("crc32", .text (shownCrc t))]

def summaryJson (schema archive : String) (s : Summary) : Json :=
  .object [("schema_id", .text schema), ("archive", .text archive),
    ("namespaces", .list (s.entries.map fun (ns, t) => row ns t)),
    ("total_records", natural s.totalRecords.toNat),
    ("total_bytes", natural s.totalBytes.toNat)]

def summaryTable (s : Summary) : Table where
  header := ["NAMESPACE", "RECORDS", "BYTES", "CRC32"]
  rows := s.entries.map fun (ns, t) =>
    [ns.shown, toString t.records.toNat, toString t.bytes.toNat, shownCrc t]

def lined (lines : List String) : String := String.join (lines.map (· ++ "\n"))

/-- What was packed, unpacked or verified. -/
def summary (format : OutputFormat) (schema archive : String) (s : Summary) : String :=
  match format with
  | .json => lined [(summaryJson schema archive s).render]
  | .table =>
    lined [(summaryTable s).render,
      s!"{s.entries.length} namespaces, {s.totalRecords.toNat} records, {s.totalBytes.toNat} bytes"]
  | .pretty =>
    lined ((s.entries.map fun (ns, t) =>
        s!"{ns.shown} records={t.records.toNat} bytes={t.bytes.toNat} crc32={shownCrc t}")
      ++ [s!"total records={s.totalRecords.toNat} bytes={s.totalBytes.toNat}"])

def catalogEntry (e : CatalogEntry) : Json :=
  .object [("namespace", .text e.ns.shown), ("db", .text e.ns.db),
    ("collection", .text e.ns.collection), ("metadata", .text e.metadata)]

def catalogJson (archive : String) (c : Catalog) : Json :=
  .object [("schema_id", .text (schema "archive-prelude")), ("archive", .text archive),
    ("format_version", .text c.header.version),
    ("concurrent_collections", .number c.header.concurrent.toInt),
    ("databases", .list (c.databases.map .text)),
    ("collections", .list (c.entries.map catalogEntry))]

def catalogTable (c : Catalog) : Table where
  header := ["NAMESPACE", "METADATA"]
  rows := c.entries.map fun e => [e.ns.shown, e.metadata]

/-- The catalog of an archive. -/
def catalog (format : OutputFormat) (archive : String) (c : Catalog) : String :=
  let version := c.header.version
  let concurrent := c.header.concurrent.toInt
  match format with
  | .json => lined [(catalogJson archive c).render]
  | .table =>
    lined [s!"Archive:                {archive}", s!"Format version:         {version}",
      s!"Concurrent collections: {concurrent}", (catalogTable c).render]
  | .pretty =>
    lined (s!"version={version} concurrent_collections={concurrent}" ::
      c.databases.flatMap fun db =>
        db :: (c.collectionsIn db).map fun e => s!"  {e.ns.collection} {e.metadata}")

end Report
end DumpArchive
