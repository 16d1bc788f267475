import DumpArchive.Checksum
import DumpArchive.Namespace

/-! What an archive holds for each namespace: a count of records and bytes and a checksum of
all of them. Counts are machine words. -/
namespace DumpArchive

structure Tally where
  records : UInt64
  bytes : UInt64
  crc : UInt32
  deriving DecidableEq, Repr

namespace Tally

def zero : Tally := ⟨0, 0, 0⟩

/-- Counts one more record; the checksum goes on from where it stood. -/
def count (t : Tally) (record : Bytes) : Tally where
  records := t.records + 1
  bytes := t.bytes + record.length.toUInt64
  crc := Checksum.continued t.crc record

end Tally

/-- Tallies in the order of their namespaces. -/
structure Summary where
  entries : List (Namespace × Tally)
  deriving DecidableEq, Repr

namespace Summary

def empty : Summary := ⟨[]⟩

def get? (s : Summary) (ns : Namespace) : Option Tally :=
  (s.entries.find? (·.1 = ns)).map (·.2)

/-- Changes the tally of a namespace, from zero if it has none. -/
def updateIn (ns : Namespace) (f : Tally → Tally) :
    List (Namespace × Tally) → List (Namespace × Tally)
  | [] => [(ns, f .zero)]
  | (other, t) :: rest =>
    if ns = other then (other, f t) :: rest
    else if ns.precedes other then (ns, f .zero) :: (other, t) :: rest
    else (other, t) :: updateIn ns f rest

def update (s : Summary) (ns : Namespace) (f : Tally → Tally) : Summary :=
  ⟨updateIn ns f s.entries⟩

/-- A namespace without records has an entry too. -/
def touch (s : Summary) (ns : Namespace) : Summary := s.update ns id

def count (s : Summary) (ns : Namespace) (record : Bytes) : Summary :=
  s.update ns (·.count record)

def totalRecords (s : Summary) : UInt64 := s.entries.foldl (fun n (_, t) => n + t.records) 0

def totalBytes (s : Summary) : UInt64 := s.entries.foldl (fun n (_, t) => n + t.bytes) 0

end Summary
end DumpArchive
