import DumpArchive.Proofs.Catalogs
import DumpArchive.Proofs.Scanning
import Mathlib

/-! Which byte strings are archives: the front with the catalog, and then blocks in which every
namespace of the catalog comes to its end once and no other namespace occurs. -/
namespace DumpArchive

open Catalog (Front)

/-- An archive as it stands on a stream. -/
structure Layout where
  front : Front
  blocks : List Block

namespace Layout

def bytes (l : Layout) : Bytes := l.front.bytes ++ l.blocks.flatMap Block.bytes

structure Formed (max : UInt64) (l : Layout) : Prop where
  front : l.front.Formed max
  blocks : ∀ b ∈ l.blocks, b.Formed max
  sequence : Block.Sequence l.front.namespaces l.blocks

/-- The records under a namespace, in the order of the stream. -/
def recordsOf (l : Layout) (ns : Namespace) : List Bytes := Block.recordsOf ns l.blocks

theorem Formed.accounts {max : UInt64} {l : Layout} (formed : l.Formed max) :
    (Summary.ofBlocks l.blocks).Accounts (· ∈ l.front.namespaces) l.recordsOf := by
  have sequence := formed.sequence
  refine (Summary.accounts_ofBlocks sequence.bare).congr ?_ fun _ _ => rfl
  intro ns
  constructor
  · rintro ⟨b, member, rfl, -⟩
    exact sequence.known b member
  · intro listed
    obtain ⟨b, member, ends, same⟩ := sequence.ended ns listed
    exact ⟨b, member, same, .inl ends⟩

end Layout

namespace Restore

/-- An archive can be opened and, without a cap, be verified with this summary. -/
def Verifies (source : Source) (max : UInt64) (s : Summary) : Prop :=
  ∃ a reader, openArchive source max none = (.ok a, reader) ∧ verify a = .ok s

variable {source : Source} {max : UInt64} {s : Summary}

theorem openArchive_eq_ok_iff {a : Archive} {reader : Token.Reader} :
    openArchive source max none = (.ok a, reader) ↔
      Catalog.read (.start source max) = (.ok a.catalog, reader) ∧ a.reader = reader ∧
        a.cap = none := by
  unfold openArchive
  constructor
  · intro opened
    split at opened
    · simp at opened
    · next catalog last found =>
      obtain ⟨rfl, rfl⟩ := by simpa using opened
      exact ⟨found, rfl, rfl⟩
  · rintro ⟨found, rfl, uncapped⟩
    rw [found]
    cases a
    simp_all

/-- An archive is opened with the catalog at its front, and verified with the summary of its
blocks. -/
theorem verify_layout {l : Layout} (sound : source.schedule.Sound) (small : max.toNat < 2 ^ 63)
    (formed : l.Formed max) (pending : source.pending = l.bytes) :
    ∃ a reader, openArchive source max none = (.ok a, reader) ∧ a.catalog.Of l.front ∧
      verify a = .ok (.ofBlocks l.blocks) := by
  have start := Token.Reader.at_start sound max
  rw [pending] at start
  obtain ⟨c, reader, found, same, offset, ahead⟩ := Catalog.read_front small formed.front start
  refine ⟨⟨reader, c, none⟩, reader, openArchive_eq_ok_iff.2 ⟨found, rfl, rfl⟩, same, ?_⟩
  exact (verify_eq_ok_iff small (same.named formed.front) rfl ahead).2
    ⟨l.blocks, rfl, formed.blocks, same.namespaces ▸ formed.sequence, rfl⟩

theorem verifies_iff (sound : source.schedule.Sound) (small : max.toNat < 2 ^ 63) :
    Verifies source max s ↔
      ∃ l : Layout, l.Formed max ∧ source.pending = l.bytes ∧ s = .ofBlocks l.blocks := by
  constructor
  · rintro ⟨a, reader, opened, passed⟩
    obtain ⟨found, rfl, uncapped⟩ := openArchive_eq_ok_iff.1 opened
    obtain ⟨f, rest, formed, split, same, offset, ahead⟩ :=
      Catalog.front_of_read small (Token.Reader.at_start sound max) found
    obtain ⟨blocks, rfl, whole, sequence, sums⟩ :=
      (verify_eq_ok_iff small (same.named formed) uncapped ahead).1 passed
    exact ⟨⟨f, blocks⟩, ⟨formed, whole, same.namespaces ▸ sequence⟩, split, sums⟩
  · rintro ⟨l, formed, pending, rfl⟩
    obtain ⟨a, reader, opened, -, passed⟩ := verify_layout sound small formed pending
    exact ⟨a, reader, opened, passed⟩

/-- Just the archives can be opened and verified. The summary is of the namespaces of the catalog,
with the tally of all records that stand under each. -/
theorem verifies_iff_layout (source : Source) (max : UInt64) (sound : source.schedule.Sound)
    (small : max.toNat < 2 ^ 63) :
    ((∃ s, Verifies source max s) ↔ ∃ l : Layout, l.Formed max ∧ source.pending = l.bytes) ∧
    ∀ s, Verifies source max s → ∀ l : Layout, l.Formed max → source.pending = l.bytes →
      s.Accounts (· ∈ l.front.namespaces) l.recordsOf := by
  refine ⟨⟨?_, ?_⟩, ?_⟩
  · rintro ⟨s, verified⟩
    obtain ⟨l, formed, pending, -⟩ := (verifies_iff sound small).1 verified
    exact ⟨l, formed, pending⟩
  · rintro ⟨l, formed, pending⟩
    exact ⟨_, (verifies_iff sound small).2 ⟨l, formed, pending, rfl⟩⟩
  · rintro s ⟨a, reader, opened, passed⟩ l formed pending
    obtain ⟨b, next, also, verdict⟩ := (verifies_iff sound small).2 ⟨l, formed, pending, rfl⟩
    obtain ⟨same, rfl⟩ := Prod.mk.inj (opened.symm.trans also)
    obtain rfl := Except.ok.inj same
    obtain rfl := Except.ok.inj (passed.symm.trans verdict)
    exact formed.accounts

/-- An archive of two namespaces whose blocks take turns. -/
def braided : Layout where
  front := (⟨.current 2, [⟨⟨"a", "b"⟩, "{}"⟩, ⟨⟨"a", "c"⟩, "[]"⟩], by decide⟩ : Catalog).front
  blocks := [.ofHeader ⟨⟨"a", "b"⟩, false⟩ [[5, 0, 0, 0, 0]],
    .ofHeader ⟨⟨"a", "c"⟩, false⟩ [[6, 0, 0, 0, 1, 0]],
    .ofHeader ⟨⟨"a", "b"⟩, false⟩ [[5, 0, 0, 0, 0], [7, 0, 0, 0, 1, 2, 0]],
    .ofHeader ⟨⟨"a", "c"⟩, true⟩ [], .ofHeader ⟨⟨"a", "b"⟩, true⟩ []]

theorem formed_braided : braided.Formed 128 where
  front := by
    have entries : ∀ e ∈ [(⟨⟨"a", "b"⟩, "{}"⟩ : CatalogEntry), ⟨⟨"a", "c"⟩, "[]"⟩],
        Record.check e.record 128 = .ok () ∧ e.ns.isNamed := by decide +kernel
    exact Catalog.formed_front (Record.check_eq_ok_iff.1 (by decide +kernel)) fun e member =>
      (entries e member).imp_left Record.check_eq_ok_iff.1
  blocks := by
    have heads : ∀ h ∈ braided.blocks.map Block.header, Record.check h.record 128 = .ok () := by
      decide +kernel
    have records : ∀ r ∈ braided.blocks.flatMap Block.records, Record.check r 128 = .ok () := by
      decide +kernel
    have made : ∀ b ∈ braided.blocks, b = .ofHeader b.header b.records := by simp [braided]
    intro b member
    rw [made b member]
    exact Block.formed_ofHeader
      (Record.check_eq_ok_iff.1 (heads _ (List.mem_map_of_mem (f := Block.header) member)))
      fun r held => Record.check_eq_ok_iff.1 (records r (List.mem_flatMap.2 ⟨b, member, held⟩))
  sequence := by
    constructor <;> simp [braided, Catalog.front, Front.namespaces]

theorem verifies_braided :
    (∃ s, Verifies (.ofBytes braided.bytes) 128 s) ∧
    ∀ s, Verifies (.ofBytes braided.bytes) 128 s →
      s.Accounts (· ∈ braided.front.namespaces) braided.recordsOf ∧
      s.entries = [(⟨"a", "b"⟩, ⟨3, 17, 1404132378⟩), (⟨"a", "c"⟩, ⟨1, 6, 2122347519⟩)] := by
  obtain ⟨language, accounts⟩ := verifies_iff_layout (.ofBytes braided.bytes) 128
    Stream.Schedule.sound_steady (by decide)
  have passes := language.2 ⟨braided, formed_braided, rfl⟩
  refine ⟨passes, fun s verified => ⟨accounts s verified braided formed_braided rfl, ?_⟩⟩
  obtain ⟨a, reader, opened, passed⟩ := verified
  have tallies : ((openArchive (.ofBytes braided.bytes) 128 none).1.toOption.bind fun a =>
      (verify a).toOption.map (·.entries)) =
        some [(⟨"a", "b"⟩, ⟨3, 17, 1404132378⟩), (⟨"a", "c"⟩, ⟨1, 6, 2122347519⟩)] := by decide +kernel
  simpa [opened, passed, Except.toOption] using tallies

end Restore
end DumpArchive
