import DumpArchive.Proofs.Openings

/-! An archive that is read on after other files have been written. It goes on as it was opened if
its file still stands as it did. -/
namespace DumpArchive

namespace Tree

variable {t : Tree} {path : String} {content : Bytes}

/-- A file that is found stands at its place. -/
theorem exists_of_find (found : t.find path = .ok (.file content)) :
    ∃ there, t.locate path = .ok there ∧ t.lookup there = some (.file content) := by
  unfold find at found
  split at found
  · contradiction
  · next there leads =>
    refine ⟨there, leads, ?_⟩
    split at found
    · contradiction
    · simp at found
    · next other stands =>
      split at found
      · contradiction
      · rw [stands]
        simpa using found

end Tree

namespace Restore

variable {a : Archive} {data : Bytes} {max : UInt64} {reader : Token.Reader}

/-- An open archive has the rest of its bytes before it. -/
theorem pending_of_openArchive (small : max.toNat < 2 ^ 63)
    (opened : openArchive (.ofBytes data) max none = (.ok a, reader)) :
    a.reader.source.pending <:+ data := by
  obtain ⟨found, rfl, -⟩ := openArchive_eq_ok_iff.1 opened
  obtain ⟨f, rest, -, split, -, offset, ahead⟩ := Catalog.front_of_read small
    (Token.Reader.at_start Stream.Schedule.sound_steady max) found
  exact ⟨f.bytes, by rw [ahead.ahead]; exact split.symm⟩

end Restore

namespace Command

variable {s : Setting} {archive : String} {data : Bytes} {a : Restore.Archive} {t : Tree}

/-- A file that can be opened and read stands where its path leads. -/
theorem find_of_openSource (named : archive ≠ standard)
    (source : openSource s archive = .ok (.ofBytes data)) :
    s.tree.find archive = .ok (.file data) := by
  rw [openSource, if_neg named] at source
  unfold Tree.openFile at source
  split at source
  · contradiction
  · next opened =>
    obtain rfl := Except.ok.inj source
    split at opened
    · contradiction
    · next content found =>
      have same := congrArg Source.pending (Except.ok.inj opened)
      rw [found, show content = data from same]
    · -- reading from a directory fails
      have fault := congrArg (fun s => s.schedule.fault.isSome) (Except.ok.inj opened)
      contradiction

/-- In another tree the file of an archive stands as it did. -/
def Undisturbed (s : Setting) (archive : String) (t : Tree) : Prop :=
  archive ≠ standard → ∀ there, s.tree.locate archive = .ok there →
    t.lookup there = s.tree.lookup there

/-- What the buffer holds is the same as what still stands in the file. -/
theorem readOn_eq (source : openSource s archive = .ok (.ofBytes data))
    (opened : openArchive s archive = .ok a) (kept : Undisturbed s archive t) :
    readOn s archive t a = a := by
  unfold readOn
  by_cases named : archive = standard
  · rw [if_pos named]
  · obtain ⟨there, leads, stands⟩ := Tree.exists_of_find (find_of_openSource named source)
    have still : t.lookup there = some (.file data) := (kept named there leads).trans stands
    obtain ⟨reader, read⟩ := (openArchive_eq_ok_iff source).1 opened
    obtain ⟨front, split⟩ := Restore.pending_of_openArchive (by decide) read
    have taken : data.length - a.reader.source.pending.length = front.length := by
      rw [← split, List.length_append, Nat.add_sub_cancel]
    have again (held : Nat) : a.reader.source.pending.take held ++
        data.drop (front.length + held) = a.reader.source.pending := by
      rw [← split, ← List.drop_drop, List.drop_left, List.take_append_drop]
    simp only [named, if_false, leads, stands, still, taken, again]

end Command
end DumpArchive
