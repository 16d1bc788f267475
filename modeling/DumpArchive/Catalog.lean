import DumpArchive.Block
import DumpArchive.Header
import DumpArchive.Token.Writer

/-! The catalog: the archive header and one entry for each namespace, grouped by database. On
the stream it is the magic number and the first block. -/
namespace DumpArchive

open Token (Reader Writer)

/-- The first namespace that stands in `seen` or repeats an earlier one. -/
def Namespace.firstRepeat (seen : List Namespace) : List Namespace → Option Namespace
  | [] => none
  | ns :: rest => if ns ∈ seen then some ns else firstRepeat (ns :: seen) rest

theorem Namespace.nodup_of_firstRepeat {seen list : List Namespace}
    (h : firstRepeat seen list = none) : list.Nodup ∧ ∀ ns ∈ list, ns ∉ seen := by
  fun_induction firstRepeat seen list with
  | case1 => simp
  | case2 => simp at h
  | case3 seen ns rest fresh ih =>
    obtain ⟨distinct, apart⟩ := ih h
    refine ⟨List.nodup_cons.2 ⟨fun again => ?_, distinct⟩, ?_⟩
    · exact apart ns again (List.mem_cons_self ..)
    · intro other mem
      rcases List.mem_cons.1 mem with rfl | mem
      · exact fresh
      · exact fun old => apart other mem (List.mem_cons_of_mem _ old)

structure Catalog where
  header : ArchiveHeader
  entries : List CatalogEntry
  distinct : (entries.map (·.ns)).Nodup

namespace Catalog

/-- Fails with the first namespace that repeats an earlier one. -/
def ofEntries (header : ArchiveHeader) (entries : List CatalogEntry) : Except Namespace Catalog :=
  match h : Namespace.firstRepeat [] (entries.map (·.ns)) with
  | some ns => .error ns
  | none => .ok ⟨header, entries, (Namespace.nodup_of_firstRepeat h).1⟩

/-- The entries of one database, in stream order. -/
structure Group where
  db : String
  entries : List CatalogEntry

/-- Adds an entry to the group of its database, a new one at the end if there is none. -/
def group (e : CatalogEntry) : List Group → List Group
  | [] => [⟨e.ns.db, [e]⟩]
  | g :: rest => if g.db = e.ns.db then ⟨g.db, g.entries ++ [e]⟩ :: rest else g :: group e rest

def groups (c : Catalog) : List Group := c.entries.foldl (fun groups e => group e groups) []

/-- Distinct databases in the order of their first entries. -/
def databases (c : Catalog) : List String := c.groups.map (·.db)

def collectionsIn (c : Catalog) (db : String) : List CatalogEntry :=
  match c.groups.find? (·.db = db) with
  | some g => g.entries
  | none => []

def entryFor? (c : Catalog) (ns : Namespace) : Option CatalogEntry :=
  (c.collectionsIn ns.db).find? (·.ns.collection = ns.collection)

def namespaces (c : Catalog) : List Namespace := c.entries.map (·.ns)

/-- The first block of an archive. -/
def tokens (c : Catalog) : List Token :=
  .record c.header.record :: c.entries.map (fun e => .record e.record) ++ [.delimiter]

def write (c : Catalog) (w : Writer) : Except FrameError Unit × Writer :=
  match w.writeMagic with
  | (.error e, w) => (.error e, w)
  | (.ok (), w) => w.writeTokens c.tokens

/-- What has been read of the first block. -/
structure Draft where
  header : Option ArchiveHeader
  entries : List CatalogEntry

def Draft.handler : Block.Handler Draft where
  header offset record draft := match ArchiveHeader.ofRecord? record with
    | some header => (.ok (), { draft with header := some header })
    | none => (.error (.corrupt offset .notArchiveHeader), draft)
  body offset record draft := match CatalogEntry.ofRecord? record with
    | none => (.error (.corrupt offset .notCatalogEntry), draft)
    | some e =>
      if e.ns.isNamed then (.ok (), { draft with entries := draft.entries ++ [e] })
      else (.error (.corrupt offset .unnamedEntry), draft)
  finish _ draft := (.ok (), draft)

/-- Faults of the catalog as a whole are reported at the first byte after the magic number. -/
def read (r : Reader) : Except FrameError Catalog × Reader :=
  match r.readRaw 4 with
  | (.error e, r) => (.error e, r)
  | (.ok four, r) =>
    if four.length < 4 then (.error (.notAnArchive 0), r)
    else if four ≠ Token.magicBytes then (.error (.notAnArchive (UInt32.ofNat four.toNat)), r)
    else match Block.read Draft.handler ⟨none, []⟩ r with
      | (.error e, _, r) => (.error e, r)
      | (.ok .block, ⟨some header, entries⟩, r) => match ofEntries header entries with
        | .error ns => (.error (.corrupt 4 (.repeatedEntry ns.shown)), r)
        | .ok c => (.ok c, r)
      | (.ok _, _, r) => (.error (.corrupt 4 .noPrelude), r)

end Catalog
end DumpArchive
