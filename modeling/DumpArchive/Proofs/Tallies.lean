import DumpArchive.Summary
import Mathlib.Data.String.Basic

/-! A summary lists each of its namespaces once, in order, with the tally of its records. Counting
one record after another comes to the same tally as looking at all of them at once. -/
namespace DumpArchive

namespace Namespace

variable {a b c : Namespace}

theorem precedes_iff :
    a.precedes b ↔ a.db < b.db ∨ a.db = b.db ∧ a.collection < b.collection := by
  simp [precedes]

theorem precedes_trans (first : a.precedes b) (second : b.precedes c) : a.precedes c := by
  rw [precedes_iff] at first second ⊢
  rcases first with first | ⟨same, first⟩ <;> rcases second with second | ⟨also, second⟩
  · exact .inl (first.trans second)
  · exact .inl (also ▸ first)
  · exact .inl (same ▸ second)
  · exact .inr ⟨same.trans also, first.trans second⟩

theorem not_precedes_self : ¬ a.precedes a := by
  simp [precedes_iff]

theorem precedes_of_not (distinct : a ≠ b) (after : ¬ a.precedes b) : b.precedes a := by
  rw [precedes_iff] at after ⊢
  push Not at after
  rcases lt_trichotomy a.db b.db with less | same | more
  · exact absurd less (not_lt.2 after.1)
  · have other : a.collection ≠ b.collection := by
      intro equal
      exact distinct (by cases a; cases b; simp_all)
    exact .inr ⟨same.symm, lt_of_le_of_ne (after.2 same) other.symm⟩
  · exact .inl more

end Namespace

/-- A checksum goes on from a finished value as if it had not been finished. -/
theorem Checksum.continued_append (sum : UInt32) (front back : Bytes) :
    continued sum (front ++ back) = continued (continued sum front) back := by
  simp only [continued, List.foldl_append, UInt32.xor_assoc, UInt32.xor_self, UInt32.xor_zero]

namespace Tally

/-- The tally of some records in order, taken all at once. -/
def ofRecords (records : List Bytes) : Tally where
  records := UInt64.ofNat records.length
  bytes := UInt64.ofNat records.flatten.length
  crc := Checksum.ofBytes records.flatten

theorem ofRecords_nil : ofRecords [] = zero := rfl

theorem ofRecords_concat (records : List Bytes) (record : Bytes) :
    ofRecords (records ++ [record]) = (ofRecords records).count record := by
  simp only [ofRecords, count, mk.injEq]
  refine ⟨?_, ?_, ?_⟩
  · simp
  · simp [Nat.toUInt64]
  · simp [Checksum.ofBytes, Checksum.continued_append]

end Tally

namespace Summary

/-- Has exactly the namespaces that are `present`, each once, with the tally of its records. -/
structure Accounts (s : Summary) (present : Namespace → Prop)
    (records : Namespace → List Bytes) : Prop where
  ordered : s.entries.Pairwise fun a b => a.1.precedes b.1
  keys : ∀ ns, ns ∈ s.entries.map (·.1) ↔ present ns
  tallies : ∀ ns t, (ns, t) ∈ s.entries → t = Tally.ofRecords (records ns)

variable {ns : Namespace} {f : Tally → Tally} {entries : List (Namespace × Tally)}

theorem keys_updateIn (ns : Namespace) (f : Tally → Tally) (entries : List (Namespace × Tally))
    (key : Namespace) :
    key ∈ (updateIn ns f entries).map (·.1) ↔ key = ns ∨ key ∈ entries.map (·.1) := by
  fun_induction updateIn ns f entries with
  | case1 => simp
  | case2 t rest => simp
  | case3 other t rest distinct before => simp
  | case4 other t rest distinct after ih =>
    simp only [List.map_cons, List.mem_cons, ih]
    exact or_left_comm

theorem ordered_updateIn (ordered : entries.Pairwise fun a b => a.1.precedes b.1) :
    (updateIn ns f entries).Pairwise fun a b => a.1.precedes b.1 := by
  fun_induction updateIn ns f entries with
  | case1 => simp
  | case2 t rest =>
    obtain ⟨first, others⟩ := List.pairwise_cons.1 ordered
    exact List.pairwise_cons.2 ⟨first, others⟩
  | case3 other t rest distinct before =>
    obtain ⟨first, others⟩ := List.pairwise_cons.1 ordered
    refine List.pairwise_cons.2 ⟨?_, ordered⟩
    intro later member
    rcases List.mem_cons.1 member with rfl | member
    · exact before
    · exact Namespace.precedes_trans before (first later member)
  | case4 other t rest distinct after ih =>
    obtain ⟨first, others⟩ := List.pairwise_cons.1 ordered
    refine List.pairwise_cons.2 ⟨?_, ih others⟩
    intro later member
    have key : later.1 ∈ (updateIn ns f rest).map (·.1) := List.mem_map_of_mem member
    rcases (keys_updateIn ns f rest later.1).1 key with same | old
    · rw [same]
      exact Namespace.precedes_of_not distinct after
    · obtain ⟨entry, known, same⟩ := List.mem_map.1 old
      exact same ▸ first entry known

/-- Only the tally of the one namespace changes; it starts from zero if there was none. -/
theorem mem_updateIn (ordered : entries.Pairwise fun a b => a.1.precedes b.1)
    {key : Namespace} {t : Tally} (member : (key, t) ∈ updateIn ns f entries) :
    (key ≠ ns ∧ (key, t) ∈ entries) ∨
      (key = ns ∧ ∃ old, t = f old ∧
        ((ns, old) ∈ entries ∨ (ns ∉ entries.map (·.1) ∧ old = .zero))) := by
  fun_induction updateIn ns f entries with
  | case1 =>
    obtain ⟨rfl, rfl⟩ := by simpa using member
    exact .inr ⟨rfl, .zero, rfl, .inr ⟨by simp, rfl⟩⟩
  | case2 old rest =>
    obtain ⟨first, -⟩ := List.pairwise_cons.1 ordered
    rcases List.mem_cons.1 member with here | later
    · obtain ⟨rfl, rfl⟩ := Prod.mk.inj here
      exact .inr ⟨rfl, old, rfl, .inl (List.mem_cons_self ..)⟩
    · refine .inl ⟨?_, List.mem_cons_of_mem _ later⟩
      rintro rfl
      have before := first (_, t) later
      exact Namespace.not_precedes_self before
  | case3 other old rest distinct before =>
    have fresh : ns ∉ ((other, old) :: rest).map (·.1) := by
      obtain ⟨first, -⟩ := List.pairwise_cons.1 ordered
      intro known
      rcases List.mem_cons.1 known with same | known
      · exact distinct same
      · obtain ⟨entry, known, same⟩ := List.mem_map.1 known
        exact Namespace.not_precedes_self
          (Namespace.precedes_trans before (same ▸ first entry known))
    rcases List.mem_cons.1 member with here | later
    · obtain ⟨rfl, rfl⟩ := Prod.mk.inj here
      exact .inr ⟨rfl, .zero, rfl, .inr ⟨fresh, rfl⟩⟩
    · refine .inl ⟨?_, later⟩
      rintro rfl
      exact fresh (List.mem_map_of_mem later)
  | case4 other old rest distinct after ih =>
    obtain ⟨-, others⟩ := List.pairwise_cons.1 ordered
    rcases List.mem_cons.1 member with here | later
    · obtain ⟨rfl, rfl⟩ := Prod.mk.inj here
      exact .inl ⟨Ne.symm distinct, List.mem_cons_self ..⟩
    · rcases ih others later with ⟨apart, known⟩ | ⟨rfl, value, changed, known | ⟨fresh, zero⟩⟩
      · exact .inl ⟨apart, List.mem_cons_of_mem _ known⟩
      · exact .inr ⟨rfl, value, changed, .inl (List.mem_cons_of_mem _ known)⟩
      · exact .inr ⟨rfl, value, changed, .inr ⟨by simp_all, zero⟩⟩

theorem accounts_empty : empty.Accounts (fun _ => False) (fun _ => []) :=
  ⟨List.Pairwise.nil, by simp [empty], by simp [empty]⟩

/-- A change of one tally that follows a change of the records of its namespace. -/
theorem Accounts.update {s : Summary} {present : Namespace → Prop}
    {records changed : Namespace → List Bytes} (accounts : s.Accounts present records)
    (absent : ¬ present ns → records ns = [])
    (same : ∀ other, other ≠ ns → changed other = records other)
    (follows : f (Tally.ofRecords (records ns)) = Tally.ofRecords (changed ns)) :
    (s.update ns f).Accounts (fun other => other = ns ∨ present other) changed where
  ordered := ordered_updateIn accounts.ordered
  keys other := (keys_updateIn ns f s.entries other).trans (or_congr Iff.rfl (accounts.keys other))
  tallies := by
    intro other t member
    rcases mem_updateIn accounts.ordered member with ⟨apart, known⟩ | ⟨rfl, old, rfl, known⟩
    · rw [same other apart]
      exact accounts.tallies other t known
    · rw [← follows]
      rcases known with known | ⟨fresh, rfl⟩
      · rw [accounts.tallies other old known]
      · rw [absent fun is => fresh ((accounts.keys other).2 is), Tally.ofRecords_nil]

end Summary
end DumpArchive
