import DumpArchive.Proofs.Blocks
import Mathlib.Data.List.Chain

/-! What a multiplexer has put on its stream: whole blocks and the one it is in the middle of. A
record goes on with the unfinished block if that is of its namespace and begins a new one
otherwise; the end of a namespace is a block of its own. -/
namespace DumpArchive

structure Wire where
  complete : List Block
  unfinished : Option Block

namespace Wire

def empty : Wire := ⟨[], none⟩

def blocks (w : Wire) : List Block := w.complete ++ w.unfinished.toList

/-- An unfinished block lacks its delimiter only. -/
def bytes (w : Wire) : Bytes :=
  w.complete.flatMap Block.bytes ++ w.unfinished.toList.flatMap Block.front

/-- The namespace of the unfinished block. -/
def cursor (w : Wire) : Option Namespace := w.unfinished.map (·.header.ns)

def terminate (w : Wire) : Wire := ⟨w.blocks, none⟩

/-- A block begins with the record that says what it is. -/
def enter (lead : Bytes) (header : CollectionHeader) (w : Wire) : Wire :=
  ⟨w.blocks, some ⟨lead, header, []⟩⟩

def add (ns : Namespace) (record : Bytes) (w : Wire) : Wire :=
  match w.unfinished with
  | some b =>
    if b.header.ns = ns then ⟨w.complete, some { b with records := b.records ++ [record] }⟩
    else ⟨w.blocks, some (.ofHeader ⟨ns, false⟩ [record])⟩
  | none => ⟨w.blocks, some (.ofHeader ⟨ns, false⟩ [record])⟩

def close (ns : Namespace) (w : Wire) : Wire := ⟨w.blocks ++ [.ofHeader ⟨ns, true⟩ []], none⟩

/-- The namespaces whose end stands on the stream, in the order they ended. -/
def ended (w : Wire) : List Namespace :=
  (w.blocks.filter (·.header.eof)).map (·.header.ns)

/-- A block has records or the end mark, never both and never neither. Only namespaces that go on
have an unfinished block, a new block begins only for another namespace, and the end of a
namespace is its last block. -/
structure Tidy (w : Wire) : Prop where
  filled : ∀ b ∈ w.blocks, b.header.eof ↔ b.records = []
  ongoing : ∀ b ∈ w.unfinished, ¬ b.header.eof
  switches : w.blocks.IsChain fun a b =>
    ¬ a.header.eof → ¬ b.header.eof → a.header.ns ≠ b.header.ns
  last : w.blocks.Pairwise fun a b => a.header.eof → a.header.ns ≠ b.header.ns

variable {w : Wire} {ns : Namespace} {record : Bytes}

theorem blocks_of_unfinished {b : Block} (unfinished : w.unfinished = some b) :
    w.blocks = w.complete ++ [b] := by
  simp [blocks, unfinished]

@[simp] theorem blocks_terminate (w : Wire) : w.terminate.blocks = w.blocks := by
  simp [terminate, blocks]

@[simp] theorem blocks_enter (lead : Bytes) (header : CollectionHeader) (w : Wire) :
    (w.enter lead header).blocks = w.blocks ++ [⟨lead, header, []⟩] := by
  simp [enter, blocks]

@[simp] theorem blocks_close (ns : Namespace) (w : Wire) :
    (w.close ns).blocks = w.blocks ++ [.ofHeader ⟨ns, true⟩ []] := by
  simp [close, blocks]

/-- A record lengthens the last block or stands in a new one. -/
theorem add_cases (ns : Namespace) (record : Bytes) (w : Wire) :
    (∃ b, w.unfinished = some b ∧ b.header.ns = ns ∧
      w.add ns record = ⟨w.complete, some { b with records := b.records ++ [record] }⟩) ∨
    (w.cursor ≠ some ns ∧ w.add ns record = ⟨w.blocks, some (.ofHeader ⟨ns, false⟩ [record])⟩) := by
  cases unfinished : w.unfinished with
  | none => exact .inr ⟨by simp [cursor, unfinished], by simp [add, unfinished]⟩
  | some b =>
    by_cases same : b.header.ns = ns
    · exact .inl ⟨b, rfl, same, by simp [add, unfinished, same]⟩
    · exact .inr ⟨by simp [cursor, unfinished, same], by simp [add, unfinished, same]⟩

theorem cursor_add (ns : Namespace) (record : Bytes) (w : Wire) :
    (w.add ns record).cursor = some ns := by
  rcases add_cases ns record w with ⟨b, -, same, added⟩ | ⟨-, added⟩
  · simpa [added, cursor] using same
  · simp [added, cursor]

theorem recordsOf_add (other ns : Namespace) (record : Bytes) (w : Wire) :
    Block.recordsOf other (w.add ns record).blocks =
      Block.recordsOf other w.blocks ++ if ns = other then [record] else [] := by
  rcases add_cases ns record w with ⟨b, unfinished, same, added⟩ | ⟨-, added⟩
  · rw [added, blocks_of_unfinished unfinished]
    by_cases here : ns = other <;> simp [blocks, same, here]
  · rw [added]
    by_cases here : ns = other <;> simp [blocks, Block.ofHeader, here]

theorem recordsOf_enter (ns : Namespace) (lead : Bytes) (header : CollectionHeader) (w : Wire) :
    Block.recordsOf ns (w.enter lead header).blocks = Block.recordsOf ns w.blocks := by
  simp

theorem formed_enter {max : UInt64} {lead : Bytes} {header : CollectionHeader}
    (formed : ∀ b ∈ w.blocks, b.Formed max) (token : Record.Formed max lead)
    (decodes : CollectionHeader.ofRecord? lead = some header) :
    ∀ b ∈ (w.enter lead header).blocks, b.Formed max := by
  rw [blocks_enter]
  refine List.forall_mem_append.2 ⟨formed, ?_⟩
  simpa using Block.Formed.mk token decodes (by simp)

theorem recordsOf_close (other ns : Namespace) (w : Wire) :
    Block.recordsOf other (w.close ns).blocks = Block.recordsOf other w.blocks := by
  rw [blocks_close, Block.recordsOf_append]
  simp only [Block.recordsOf_cons, Block.recordsOf_nil, Block.records_ofHeader, ite_self,
    List.append_nil]

theorem ended_add (ns : Namespace) (record : Bytes) (w : Wire) :
    (w.add ns record).ended = w.ended := by
  rcases add_cases ns record w with ⟨b, unfinished, same, added⟩ | ⟨-, added⟩
  · rw [ended, ended, added, blocks_of_unfinished unfinished]
    cases ends : b.header.eof <;> simp [blocks, ends]
  · simp [ended, added, blocks]

theorem ended_close (ns : Namespace) (w : Wire) : (w.close ns).ended = w.ended ++ [ns] := by
  simp [ended, List.filter_cons]

theorem mem_ended : ns ∈ w.ended ↔ ∃ b ∈ w.blocks, b.header.eof ∧ b.header.ns = ns := by
  simp [ended, and_assoc]

/-- A change of the wire brings in no namespace but the one it is for. -/
theorem ns_of_mem_add {b : Block} (member : b ∈ (w.add ns record).blocks) :
    b.header.ns = ns ∨ ∃ old ∈ w.blocks, old.header.ns = b.header.ns := by
  rcases add_cases ns record w with ⟨last, unfinished, same, added⟩ | ⟨-, added⟩
  · rw [added] at member
    rcases List.mem_append.1 member with earlier | here
    · exact .inr ⟨b, List.mem_append_left _ earlier, rfl⟩
    · obtain rfl := by simpa using here
      exact .inl same
  · rw [added] at member
    rcases List.mem_append.1 member with earlier | here
    · exact .inr ⟨b, earlier, rfl⟩
    · obtain rfl := by simpa using here
      exact .inl rfl

theorem ofBlocks_add (ongoing : ∀ b ∈ w.unfinished, ¬ b.header.eof) :
    Summary.ofBlocks (w.add ns record).blocks = (Summary.ofBlocks w.blocks).count ns record := by
  rcases add_cases ns record w with ⟨b, unfinished, same, added⟩ | ⟨-, added⟩
  · have goes : b.header.eof = false := by simpa using ongoing b unfinished
    rw [added, blocks_of_unfinished unfinished]
    simp [blocks, Summary.ofBlocks, Summary.absorb, goes, same]
  · simp [added, blocks, Summary.ofBlocks, Summary.absorb]

theorem ofBlocks_close (ns : Namespace) (w : Wire) :
    Summary.ofBlocks (w.close ns).blocks = (Summary.ofBlocks w.blocks).touch ns := by
  simp [Summary.ofBlocks, Summary.absorb]

/-- No block was ended without need: the last one goes on or ends its namespace. -/
def Live (w : Wire) : Prop := w.unfinished = none → ∀ b ∈ w.blocks.getLast?, b.header.eof

theorem live_empty : empty.Live := by simp [Live, empty, blocks]

theorem live_add (ns : Namespace) (record : Bytes) (w : Wire) : (w.add ns record).Live := by
  intro none
  have some := cursor_add ns record w
  simp [cursor, none] at some

theorem live_close (ns : Namespace) (w : Wire) : (w.close ns).Live := by
  intro _
  simp

theorem tidy_empty : empty.Tidy := by
  constructor <;> simp [empty, blocks]

theorem Tidy.terminate (tidy : w.Tidy) : w.terminate.Tidy := by
  refine ⟨?_, by simp [Wire.terminate], ?_, ?_⟩
  · simpa using tidy.filled
  · simpa using tidy.switches
  · simpa using tidy.last

theorem Tidy.add (tidy : w.Tidy) (live : w.Live) (going : ns ∉ w.ended) :
    (w.add ns record).Tidy := by
  rcases add_cases ns record w with ⟨b, unfinished, same, added⟩ | ⟨elsewhere, added⟩
  · have goes := tidy.ongoing b unfinished
    have filled := tidy.filled
    have switches := tidy.switches
    have last := tidy.last
    rw [blocks_of_unfinished unfinished] at filled switches last
    rw [added]
    refine ⟨?_, ?_, ?_, ?_⟩
    · intro c member
      rcases List.mem_append.1 member with earlier | here
      · exact filled c (List.mem_append_left _ earlier)
      · obtain rfl := by simpa using here
        simpa using goes
    · simpa using goes
    · simpa [blocks, List.isChain_append] using switches
    · simpa [blocks, List.pairwise_append] using last
  · rw [added]
    refine ⟨?_, by simp, ?_, ?_⟩
    · intro c member
      rcases List.mem_append.1 member with earlier | here
      · exact tidy.filled c earlier
      · obtain rfl := by simpa using here
        simp
    · refine List.isChain_append.2 ⟨tidy.switches, by simp, ?_⟩
      intro a atEnd c here goes _ same
      obtain rfl : Block.ofHeader ⟨ns, false⟩ [record] = c := by simpa using here
      -- a last block that goes on is the unfinished one, so the cursor would be at its namespace
      cases unfinished : w.unfinished with
      | none => exact goes (live unfinished a atEnd)
      | some b =>
        obtain rfl : b = a := by simpa [blocks_of_unfinished unfinished] using atEnd
        exact elsewhere (by simpa [cursor, unfinished] using same)
    · refine List.pairwise_append.2 ⟨tidy.last, by simp, ?_⟩
      intro a earlier c here ends same
      obtain rfl : c = Block.ofHeader ⟨ns, false⟩ [record] := by simpa using here
      exact going (mem_ended.2 ⟨a, earlier, ends, same⟩)

theorem Tidy.close (tidy : w.Tidy) (going : ns ∉ w.ended) : (w.close ns).Tidy := by
  refine ⟨?_, by simp [Wire.close], ?_, ?_⟩
  · rw [blocks_close]
    intro c member
    rcases List.mem_append.1 member with earlier | here
    · exact tidy.filled c earlier
    · obtain rfl := by simpa using here
      simp
  · rw [blocks_close]
    refine List.isChain_append.2 ⟨tidy.switches, by simp, ?_⟩
    intro a _ c here _ goes
    obtain rfl : Block.ofHeader ⟨ns, true⟩ [] = c := by simpa using here
    exact absurd rfl goes
  · rw [blocks_close]
    refine List.pairwise_append.2 ⟨tidy.last, by simp, ?_⟩
    intro a earlier c here ends same
    obtain rfl : c = Block.ofHeader ⟨ns, true⟩ [] := by simpa using here
    exact going (mem_ended.2 ⟨a, earlier, ends, same⟩)

end Wire
end DumpArchive
