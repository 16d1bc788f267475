import DumpArchive.Command
import DumpArchive.Proofs.Prefixes
import DumpArchive.Proofs.Trees

/-! How far a command comes with an archive: what stands at its front decides what it opens, and
bytes that are no archive are bad data and nothing else. -/
namespace DumpArchive

namespace Restore

variable {source : Source} {max : UInt64} {e : EngineError}

end Restore

namespace Command

variable {s : Setting} {archive : String} {data rest : Bytes} {a : Restore.Archive} {c : Catalog}
  {failure : Failure}

theorem openArchive_eq_ok_iff (source : openSource s archive = .ok (.ofBytes data)) :
    openArchive s archive = .ok a ↔
      ∃ reader, Restore.openArchive (.ofBytes data) Record.defaultMax none = (.ok a, reader) := by
  simp only [openArchive, source]
  cases opened : Restore.openArchive (.ofBytes data) Record.defaultMax none with
  | mk result reader => cases result <;> simp

/-- The catalog at the front is the one that is opened. -/
theorem openArchive_of_front
    (source : openSource s archive = .ok (.ofBytes (c.front.bytes ++ rest)))
    (formed : c.front.Formed Record.defaultMax) :
    ∃ a, openArchive s archive = .ok a ∧ a.catalog = c := by
  have small : Record.defaultMax.toNat < 2 ^ 63 := by decide
  have start : (Token.Reader.start (.ofBytes (c.front.bytes ++ rest)) Record.defaultMax).At
      Record.defaultMax 0 (c.front.bytes ++ rest) :=
    Token.Reader.at_start Stream.Schedule.sound_steady Record.defaultMax
  obtain ⟨d, reader, found, same, -⟩ := Catalog.read_front small formed start
  refine ⟨⟨reader, d, none⟩, (openArchive_eq_ok_iff source).2
    ⟨reader, Restore.openArchive_eq_ok_iff.2 ⟨found, rfl, rfl⟩⟩, same.unique c.of_front⟩

/-- The catalog of one collection, and an archive in which it is empty. -/
def soleCatalog : Catalog := ⟨.current 1, [⟨⟨"a", "b"⟩, "{}"⟩], List.nodup_singleton _⟩

def sole : Layout := ⟨soleCatalog.front, [.ofHeader ⟨⟨"a", "b"⟩, true⟩ []]⟩

theorem formed_sole : sole.Formed Record.defaultMax where
  front := by
    refine Catalog.formed_front (Record.check_eq_ok_iff.1 (by cbv)) fun e member => ?_
    obtain rfl := List.mem_singleton.1 member
    exact ⟨Record.check_eq_ok_iff.1 (by cbv), by decide⟩
  blocks := by
    intro b member
    obtain rfl := List.mem_singleton.1 member
    exact Block.formed_ofHeader (Record.check_eq_ok_iff.1 (by cbv)) (by simp)
  sequence := by constructor <;> simp [sole, soleCatalog, Catalog.front, Catalog.Front.namespaces]

/-- A tree with an empty directory. -/
def vacant : Tree := ⟨[(["out"], .directory)], []⟩

theorem sound_vacant : vacant.Sound := by
  refine ⟨by decide, by decide, ?_, by decide⟩
  intro n member name step
  obtain rfl := List.mem_singleton.1 member
  obtain rfl := List.mem_singleton.1 step
  exact ⟨by decide, by decide, by decide, by decide, by decide, by decide⟩

theorem leads_vacant : vacant.Leads "out" ["out"] := ⟨by decide, by cbv, by decide⟩

theorem empty_vacant (name : String) : vacant.lookup (["out"] ++ [name]) = none := by
  simp [Tree.lookup, vacant]

theorem isName_sole : Path.IsName "a" :=
  ⟨by decide, by decide, by decide, by decide, by decide, by decide⟩

theorem reachable_sole : Namespace.Reachable ⟨"a", "b"⟩ "out" :=
  ⟨by decide, by decide, by decide⟩

end Command
end DumpArchive
