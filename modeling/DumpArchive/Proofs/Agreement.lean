import DumpArchive.Proofs.Reports
import DumpArchive.Proofs.Unpacking
import Mathlib

/-! What the commands make of one archive. Whether it is inspected, verified or unpacked, it is the
same archive: bytes that are none are bad data, and otherwise the reports agree. -/
namespace DumpArchive

namespace Restore

variable {data : Bytes} {max : UInt64} {a : Archive} {reader : Token.Reader} {s : Summary}

end Restore

namespace Command

open DumpArchive.Tree (Operation Puts Performed Reached Succeed)
open DumpArchive.Command.Unpack (fileOf)

variable {s : Setting} {archive out : String} {data : Bytes} {a : Restore.Archive} {c : Catalog}
  {entries : List CatalogEntry} {t : Tree} {reader : Token.Reader}

namespace Unpack

/-- All that is done for some entries before their records are restored. -/
def preparing (out : String) (entries : List CatalogEntry) : List Operation :=
  entries.flatMap (describing out) ++ entries.flatMap (creating out)

/-- The tree in which the files are ready for their records. -/
def prepared (out : String) (entries : List CatalogEntry) (t : Tree) : Tree :=
  (preparing out entries).foldl Operation.perform t

/-- The archive is none of the files that are written for some entries. -/
def Apart (s : Setting) (archive out : String) (entries : List CatalogEntry) : Prop :=
  archive ≠ standard → ∀ e ∈ entries,
    ∀ path ∈ [Path.metadata out e.ns, (fileOf out e.ns).path],
      (prepared out entries s.tree).locate path ≠ (prepared out entries s.tree).locate archive

theorem preparing_allowed (plain : ∀ e ∈ entries, e.ns.Plain) (out : String) :
    ∀ o ∈ preparing out entries, ∃ below node,
      Share (entries.map (·.ns)) below node ∧ Puts out below node o := by
  have asked {e : CatalogEntry} (member : e ∈ entries) : e.ns ∈ entries.map (·.ns) :=
    List.mem_map_of_mem member
  refine List.forall_mem_append.2 ⟨?_, ?_⟩ <;>
    · intro o member
      obtain ⟨e, listed, member⟩ := List.mem_flatMap.1 member
      have here := plain e listed
      simp only [describing, creating, List.mem_cons, List.not_mem_nil, or_false] at member
      obtain rfl | rfl := member
      · exact ⟨_, _, .database (asked listed) here, .directory here.db.toIsStep⟩
      · first
        | exact ⟨_, _, .description (asked listed) here,
            .file here.db.toIsStep here.isStep_description⟩
        | exact ⟨_, _, .records (asked listed) here, .file here.db.toIsStep here.isStep_file⟩

theorem mem_preparing {e : CatalogEntry} (member : e ∈ entries) :
    .writeFile (Path.metadata out e.ns) (Bytes.ofText e.metadata) ∈ preparing out entries ∧
      .writeFile (fileOf out e.ns).path [] ∈ preparing out entries :=
  ⟨List.mem_append_left _ (List.mem_flatMap.2 ⟨e, member, by simp [describing]⟩),
    List.mem_append_right _ (List.mem_flatMap.2 ⟨e, member, by simp [creating]⟩)⟩

/-- Where the archive is none of the files, it stands as it did when they are ready. -/
theorem Apart.undisturbed (apart : Apart s archive out entries)
    (plain : ∀ e ∈ entries, e.ns.Plain) (succeed : Succeed (preparing out entries) s.tree)
    (source : openSource s archive = .ok (.ofBytes data)) :
    Undisturbed s archive (prepared out entries s.tree) := by
  intro named there leads
  obtain ⟨other, also, stands⟩ := Tree.exists_of_find (find_of_openSource named source)
  obtain rfl : other = there := Except.ok.inj (also.symm.trans leads)
  have allowed := preparing_allowed plain out
  have performed : Performed out (Share (entries.map (·.ns))) s.tree (prepared out entries s.tree) :=
    ⟨_, allowed, rfl⟩
  have confined := performed.confined
  have still := Tree.locate_mono confined.home confined.kept leads
  by_contra changed
  obtain ⟨node, found, reached, fresh⟩ := confined.changed other changed
  have held : node ≠ .directory := by
    rintro rfl
    rw [fresh rfl] at stands
    contradiction
  cases reached with
  | way => contradiction
  | below enters within =>
    cases within with
    | database => contradiction
    | records listed here =>
      obtain ⟨e, member, rfl⟩ := List.mem_map.1 listed
      refine apart named e member (fileOf out e.ns).path (by simp) (Eq.trans ?_ still.symm)
      exact Tree.locate_of_succeed allowed succeed here.db.toIsStep here.isStep_file
        (mem_preparing member).2 enters
    | description listed here =>
      obtain ⟨e, member, rfl⟩ := List.mem_map.1 listed
      refine apart named e member (Path.metadata out e.ns) (by simp) (Eq.trans ?_ still.symm)
      exact Tree.locate_of_succeed allowed succeed here.db.toIsStep here.isStep_description
        (mem_preparing member).1 enters

/-- A directory in which there are only directories of databases and files in them. -/
def Tidy (t : Tree) (out : String) (place : Location) (u : Tree) : Prop :=
  ∃ databases writes, Shelf t out place databases writes u

theorem Tidy.succeed {u : Tree} {place : Location} {db name : String} {content : Bytes}
    (tidy : Tidy t out place u) (inside : Path.IsName db) (named : Path.IsName name)
    (near : (Path.join out db).utf8ByteSize < 4096)
    (short : (Path.join (Path.join out db) name).utf8ByteSize < 4096) :
    let operations : List Operation := [.makeDirectories (Path.join out db),
      .writeFile (Path.join (Path.join out db) name) content]
    Succeed operations u ∧ Tidy t out place (operations.foldl Operation.perform u) := by
  intro operations
  obtain ⟨databases, writes, shelf⟩ := tidy
  obtain ⟨v, w, made, written, after⟩ := shelf.deposit inside named near short content
  have first : (Operation.makeDirectories (Path.join out db)).attempt u = (.ok (), v) := made
  have second : (Operation.writeFile (Path.join (Path.join out db) name) content).attempt v =
      (.ok (), w) := written
  simp only [operations, Succeed, List.foldl, Operation.perform, first, second, and_self, true_and]
  exact ⟨_, _, after⟩

end Unpack

/-- An archive of two collections whose blocks take turns, beside an empty directory. -/
def beside : Setting := ⟨vacant.put ["dump"] (.file Restore.braided.bytes), []⟩

end Command
end DumpArchive
