import DumpArchive.Block
import DumpArchive.Proofs.Documents
import DumpArchive.Proofs.Tallies
import Mathlib.Data.List.Induction

/-! Whole blocks, and what a sequence of them holds. The summary of a sequence is built block by
block; it accounts for exactly the records that stand under each namespace. -/
namespace DumpArchive

/-- A block as it stands on a stream: a record that says what it is, and its body records. -/
structure Block where
  lead : Bytes
  header : CollectionHeader
  records : List Bytes

namespace Block

/-- All of a block but its delimiter. -/
def front (b : Block) : Bytes := b.lead ++ b.records.flatten

def bytes (b : Block) : Bytes := b.front ++ Token.delimiterBytes

/-- The first record reads as the header, and every record is well formed. -/
structure Formed (max : UInt64) (b : Block) : Prop where
  lead : Record.Formed max b.lead
  header : CollectionHeader.ofRecord? b.lead = some b.header
  records : ∀ r ∈ b.records, Record.Formed max r

/-- The block that begins with the record of its own header. -/
def ofHeader (header : CollectionHeader) (records : List Bytes) : Block :=
  ⟨header.record, header, records⟩

@[simp] theorem header_ofHeader (header : CollectionHeader) (records : List Bytes) :
    (ofHeader header records).header = header := rfl

@[simp] theorem records_ofHeader (header : CollectionHeader) (records : List Bytes) :
    (ofHeader header records).records = records := rfl

theorem formed_ofHeader {max : UInt64} {header : CollectionHeader} {records : List Bytes}
    (lead : Record.Formed max header.record) (body : ∀ r ∈ records, Record.Formed max r) :
    (ofHeader header records).Formed max :=
  ⟨lead, CollectionHeader.ofRecord?_record lead.length_lt, body⟩

/-- The body records under a namespace, in the order of the stream. -/
def recordsOf (ns : Namespace) (blocks : List Block) : List Bytes :=
  blocks.flatMap fun b => if b.header.ns = ns then b.records else []

@[simp] theorem recordsOf_nil (ns : Namespace) : recordsOf ns [] = [] := rfl

@[simp] theorem recordsOf_cons (ns : Namespace) (b : Block) (blocks : List Block) :
    recordsOf ns (b :: blocks) =
      (if b.header.ns = ns then b.records else []) ++ recordsOf ns blocks := rfl

@[simp] theorem recordsOf_append (ns : Namespace) (front back : List Block) :
    recordsOf ns (front ++ back) = recordsOf ns front ++ recordsOf ns back := List.flatMap_append ..

/-- The blocks leave a namespace something to be summed up: a record or its end. -/
def Mentions (ns : Namespace) (blocks : List Block) : Prop :=
  ∃ b ∈ blocks, b.header.ns = ns ∧ (b.header.eof ∨ b.records ≠ [])

theorem recordsOf_eq_nil {ns : Namespace} {blocks : List Block} (silent : ¬ Mentions ns blocks) :
    recordsOf ns blocks = [] := by
  apply List.flatMap_eq_nil_iff.2
  intro b member
  split
  · next same =>
    by_contra something
    exact silent ⟨b, member, same, .inr something⟩
  · rfl

/-- Every block is of one of the namespaces and none comes after the block that ends it; a block
with the end mark has no records, and each namespace has one. -/
structure Sequence (namespaces : List Namespace) (blocks : List Block) : Prop where
  known : ∀ b ∈ blocks, b.header.ns ∈ namespaces
  bare : ∀ b ∈ blocks, b.header.eof → b.records = []
  last : blocks.Pairwise fun a b => a.header.eof → a.header.ns ≠ b.header.ns
  ended : ∀ ns ∈ namespaces, ∃ b ∈ blocks, b.header.eof ∧ b.header.ns = ns

theorem Sequence.congr {namespaces others : List Namespace} {blocks : List Block}
    (sequence : Sequence namespaces blocks) (same : ∀ ns, ns ∈ namespaces ↔ ns ∈ others) :
    Sequence others blocks where
  known b member := (same _).1 (sequence.known b member)
  bare := sequence.bare
  last := sequence.last
  ended ns member := sequence.ended ns ((same ns).2 member)

/-- The namespaces that are left after a block. -/
def remaining (b : Block) (left : List Namespace) : List Namespace :=
  if b.header.eof then left.filter (· ≠ b.header.ns) else left

/-- The same as a scan: each block finds its namespace among those that are left. -/
def Fulfils : List Namespace → List Block → Prop
  | left, [] => left = []
  | left, b :: rest =>
    b.header.ns ∈ left ∧ (b.header.eof → b.records = []) ∧ Fulfils (b.remaining left) rest

theorem mem_remaining {b : Block} {left : List Namespace} {ns : Namespace} :
    ns ∈ b.remaining left ↔ ns ∈ left ∧ (b.header.eof → ns ≠ b.header.ns) := by
  unfold remaining
  split <;> simp_all

theorem fulfils_iff {namespaces : List Namespace} {blocks : List Block} :
    Fulfils namespaces blocks ↔ Sequence namespaces blocks := by
  induction blocks generalizing namespaces with
  | nil =>
    constructor
    · rintro rfl
      exact ⟨by simp, by simp, List.Pairwise.nil, by simp⟩
    · intro sequence
      apply List.eq_nil_iff_forall_not_mem.2
      intro ns member
      obtain ⟨b, none, -⟩ := sequence.ended ns member
      exact List.not_mem_nil none
  | cons b rest ih =>
    constructor
    · rintro ⟨known, bare, others⟩
      have sequence := ih.1 others
      refine ⟨?_, ?_, ?_, ?_⟩
      · exact List.forall_mem_cons.2
          ⟨known, fun c member => (mem_remaining.1 (sequence.known c member)).1⟩
      · exact List.forall_mem_cons.2 ⟨bare, sequence.bare⟩
      · refine List.pairwise_cons.2 ⟨fun c member ends same => ?_, sequence.last⟩
        exact (mem_remaining.1 (sequence.known c member)).2 ends same.symm
      · intro ns member
        by_cases here : b.header.eof ∧ b.header.ns = ns
        · exact ⟨b, List.mem_cons_self .., here⟩
        · have left : ns ∈ b.remaining namespaces :=
            mem_remaining.2 ⟨member, fun ends same => here ⟨ends, same.symm⟩⟩
          obtain ⟨c, later, ends⟩ := sequence.ended ns left
          exact ⟨c, List.mem_cons_of_mem _ later, ends⟩
    · intro sequence
      obtain ⟨known, others⟩ := List.forall_mem_cons.1 sequence.known
      obtain ⟨bare, bareRest⟩ := List.forall_mem_cons.1 sequence.bare
      obtain ⟨after, last⟩ := List.pairwise_cons.1 sequence.last
      refine ⟨known, bare, ih.2 ⟨?_, bareRest, last, ?_⟩⟩
      · intro c member
        exact mem_remaining.2 ⟨others c member, fun ends same => after c member ends same.symm⟩
      · intro ns member
        obtain ⟨left, apart⟩ := mem_remaining.1 member
        obtain ⟨c, found, ends, same⟩ := sequence.ended ns left
        rcases List.mem_cons.1 found with rfl | later
        · exact absurd same.symm (apart ends)
        · exact ⟨c, later, ends, same⟩

end Block

namespace Summary

/-- What a block adds: an end mark the namespace itself, every record its own tally. -/
def absorb (s : Summary) (b : Block) : Summary :=
  if b.header.eof then s.touch b.header.ns
  else b.records.foldl (fun s r => s.count b.header.ns r) s

def ofBlocks (blocks : List Block) : Summary := blocks.foldl absorb empty

variable {s : Summary} {present : Namespace → Prop} {records : Namespace → List Bytes}

theorem Accounts.congr {other : Namespace → Prop} {same : Namespace → List Bytes}
    (accounts : s.Accounts present records) (keys : ∀ ns, present ns ↔ other ns)
    (lists : ∀ ns, present ns → records ns = same ns) : s.Accounts other same where
  ordered := accounts.ordered
  keys ns := (accounts.keys ns).trans (keys ns)
  tallies := by
    intro ns t member
    have here : present ns := (accounts.keys ns).1 (List.mem_map_of_mem member)
    rw [accounts.tallies ns t member, lists ns here]

theorem Accounts.touch {ns : Namespace} (accounts : s.Accounts present records)
    (absent : ¬ present ns → records ns = []) :
    (s.touch ns).Accounts (fun other => other = ns ∨ present other) records :=
  accounts.update absent (fun _ _ => rfl) rfl

theorem Accounts.counts {ns : Namespace} {more : List Bytes}
    (accounts : s.Accounts present records) (absent : ¬ present ns → records ns = []) :
    (more.foldl (fun s r => s.count ns r) s).Accounts
      (fun other => (other = ns ∧ more ≠ []) ∨ present other)
      (fun other => records other ++ if ns = other then more else []) := by
  induction more generalizing s present records with
  | nil => exact accounts.congr (by simp) (by simp)
  | cons r rest ih =>
    have first : (s.count ns r).Accounts (fun other => other = ns ∨ present other)
        (fun other => records other ++ if ns = other then [r] else []) :=
      accounts.update absent (fun other apart => by simp [apart.symm])
        (by simp [Tally.ofRecords_concat])
    refine (ih first (by simp)).congr ?_ ?_
    · intro other
      simp only [ne_eq, List.cons_ne_nil, not_false_eq_true, and_true]
      tauto
    · intro other _
      split <;> simp

theorem Accounts.absorb {b : Block} (accounts : s.Accounts present records)
    (absent : ¬ present b.header.ns → records b.header.ns = [])
    (bare : b.header.eof → b.records = []) :
    (s.absorb b).Accounts
      (fun ns => (b.header.ns = ns ∧ (b.header.eof ∨ b.records ≠ [])) ∨ present ns)
      (fun ns => records ns ++ if b.header.ns = ns then b.records else []) := by
  unfold Summary.absorb
  split
  · next ends =>
    exact (accounts.touch absent).congr (by simp [ends, eq_comm]) (by simp [bare ends])
  · next goes =>
    exact (accounts.counts absent).congr (by simp [goes, eq_comm]) (fun _ _ => rfl)

/-- The summary of blocks names what they mention and tallies all of its records. -/
theorem accounts_ofBlocks {blocks : List Block}
    (bare : ∀ b ∈ blocks, b.header.eof → b.records = []) :
    (ofBlocks blocks).Accounts (Block.Mentions · blocks) (Block.recordsOf · blocks) := by
  induction blocks using List.reverseRecOn with
  | nil => exact accounts_empty.congr (by simp [Block.Mentions]) (by simp)
  | append_singleton front b ih =>
    have before := ih fun c member => bare c (List.mem_append_left _ member)
    have whole := before.absorb (b := b) Block.recordsOf_eq_nil (bare b (by simp))
    rw [ofBlocks, List.foldl_concat]
    refine whole.congr ?_ ?_
    · intro ns
      simp only [Block.Mentions, List.mem_append, List.mem_singleton, or_and_right, exists_or,
        exists_eq_left]
      exact or_comm
    · simp

end Summary
end DumpArchive
