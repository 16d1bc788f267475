import DumpArchive.Demultiplexer
import DumpArchive.Proofs.BlockParts
import DumpArchive.Proofs.Registrations

/-! The turns of a demultiplexer over blocks that fulfil its registry. What is left of the stream
tells what the next turn does. -/
namespace DumpArchive

/-- What is left of a stream: blocks, after the rest of the one that is being read. -/
inductive Rest where
  | between (blocks : List Block)
  | inside (ns : Namespace) (records : List Bytes) (blocks : List Block)
  /-- In a block that has ended a namespace. -/
  | ending (blocks : List Block)

namespace Rest

@[simp] def place : Rest → Block.Place
  | between _ => .between
  | _ => .inside

@[simp] def blocks : Rest → List Block
  | between blocks => blocks
  | inside _ _ blocks => blocks
  | ending blocks => blocks

@[simp] def records : Rest → List Bytes
  | inside _ records _ => records
  | _ => []

def bytes : Rest → Bytes
  | between blocks => blocks.flatMap Block.bytes
  | inside _ records blocks =>
    records.flatten ++ (Token.delimiterBytes ++ blocks.flatMap Block.bytes)
  | ending blocks => Token.delimiterBytes ++ blocks.flatMap Block.bytes

/-- The records under a namespace that are still to come. -/
def recordsOf (ns : Namespace) : Rest → List Bytes
  | inside current records blocks =>
    (if current = ns then records else []) ++ Block.recordsOf ns blocks
  | between blocks => Block.recordsOf ns blocks
  | ending blocks => Block.recordsOf ns blocks

/-- A summary after the rest has been added to it. -/
def summary (s : Summary) : Rest → Summary
  | inside current records blocks =>
    blocks.foldl Summary.absorb (records.foldl (fun s r => s.count current r) s)
  | between blocks => blocks.foldl Summary.absorb s
  | ending blocks => blocks.foldl Summary.absorb s

end Rest

/-- The outlets that have ended once the namespace of a route has. -/
def Route.endedAfter (ended : List Nat) : Route → List Nat
  | .discard => ended
  | .outlet number => number :: ended

namespace Demultiplexer

/-- The engine reads, the rest lies ahead, and it is what the registry asks for. -/
structure Reads (d : Demultiplexer) (max : UInt64) (rest : Rest) : Prop where
  reading : d.stage = .reading
  place : d.place = rest.place
  ahead : ∃ offset, d.reader.At max offset rest.bytes
  formed : (∀ r ∈ rest.records, Record.Formed max r) ∧ ∀ b ∈ rest.blocks, b.Formed max
  valid : d.roster.registry.Valid
  fulfils : Block.Fulfils d.roster.registry.keys rest.blocks
  current : ∀ ns records blocks, rest = .inside ns records blocks →
    ∃ route, d.current = some (ns, route) ∧ (ns, route) ∈ d.roster.registry.entries

variable {d : Demultiplexer} {max : UInt64} {ns : Namespace} {record : Bytes}
  {records : List Bytes} {b : Block} {blocks : List Block}

theorem step_of_part {part : Block.Part} {next : Token.Reader} (reading : d.stage = .reading)
    (found : Block.nextPart d.place d.reader = (.ok part, next)) :
    d.step = ({ d with reader := next } : Demultiplexer).dispatch part := by
  simp [step, reading, found]

/-- A header without the end mark selects its namespace. -/
def select (ns : Namespace) (route : Route) (d : Demultiplexer) : Demultiplexer :=
  { d with current := some (ns, route) }

/-- A header with the end mark ends its namespace. -/
def conclude (ns : Namespace) (route : Route) (d : Demultiplexer) : Demultiplexer :=
  { d with
    roster := { d.roster with registry := d.roster.registry.close ns }
    current := none
    summary := d.summary.touch ns
    ended := route.endedAfter d.ended }

theorem readHeader_eq {lead : Bytes} {header : CollectionHeader} (offset : Nat)
    (decodes : CollectionHeader.ofRecord? lead = some header) (valid : d.roster.registry.Valid)
    (known : header.ns ∈ d.roster.registry.keys) :
    ∃ route, (header.ns, route) ∈ d.roster.registry.entries ∧
      d.readHeader offset lead =
        if header.eof then d.conclude header.ns route else d.select header.ns route := by
  obtain ⟨⟨key, route⟩, entry, rfl⟩ := List.mem_map.1 known
  refine ⟨route, entry, ?_⟩
  have named := valid.named _ known
  have found := valid.find?_eq_some_iff.2 entry
  simp only [readHeader, decodes, named, found]
  cases route <;> rfl

/-- A body record is counted, or put on offer first. -/
def deliver (ns : Namespace) (record : Bytes) (d : Demultiplexer) : Route → Demultiplexer
  | .discard => { d with summary := d.summary.count ns record }
  | .outlet number => { d with stage := .offering ns number record }

theorem readBody_eq {route : Route} (offset : Nat) (record : Bytes)
    (current : d.current = some (ns, route)) :
    d.readBody offset record = d.deliver ns record route := by
  cases route <;> simp [readBody, current, deliver]

/-- The first record of a block. -/
theorem Reads.step_header (small : max.toNat < 2 ^ 63)
    (reads : d.Reads max (.between (b :: blocks))) :
    ∃ reader route, (b.header.ns, route) ∈ d.roster.registry.entries ∧
      reader.At max (d.reader.offset + b.lead.length)
        (b.records.flatten ++ (Token.delimiterBytes ++ blocks.flatMap Block.bytes)) ∧
      d.step = if b.header.eof then
        ({ d with reader, place := .inside } : Demultiplexer).conclude b.header.ns route
        else ({ d with reader, place := .inside } : Demultiplexer).select b.header.ns route := by
  obtain ⟨known, -, -⟩ := reads.fulfils
  obtain ⟨offset, place⟩ := reads.ahead
  have formed := reads.formed.2 b (List.mem_cons_self ..)
  have split : (Rest.between (b :: blocks)).bytes =
      b.lead ++ (b.records.flatten ++ (Token.delimiterBytes ++ blocks.flatMap Block.bytes)) := by
    simp [Rest.bytes, Block.bytes, Block.front]
  rw [split] at place
  obtain ⟨reader, part, after⟩ := Block.nextPart_header small formed.lead place
  have stands : d.place = .between := reads.place
  have taken := step_of_part reads.reading (by rw [stands]; exact part)
  obtain ⟨route, entry, whole⟩ := readHeader_eq
    (d := { d with reader, place := .inside }) d.reader.offset formed.header reads.valid known
  exact ⟨reader, route, entry, place.counted ▸ after, taken.trans whole⟩

theorem Reads.step_select (small : max.toNat < 2 ^ 63)
    (reads : d.Reads max (.between (b :: blocks))) (goes : b.header.eof = false) :
    ∃ reader route, (b.header.ns, route) ∈ d.roster.registry.entries ∧
      d.step = ({ d with reader, place := .inside } : Demultiplexer).select b.header.ns route ∧
      d.step.Reads max (.inside b.header.ns b.records blocks) := by
  obtain ⟨-, -, others⟩ := reads.fulfils
  obtain ⟨reader, route, entry, after, taken⟩ := reads.step_header small
  obtain ⟨formed, formedRest⟩ := List.forall_mem_cons.1 reads.formed.2
  rw [if_neg (by simp [goes])] at taken
  simp only [Block.remaining, goes, Bool.false_eq_true, if_false] at others
  refine ⟨reader, route, entry, taken, ?_⟩
  rw [taken]
  refine ⟨reads.reading, rfl, ⟨_, after⟩, ⟨formed.records, formedRest⟩, reads.valid, others, ?_⟩
  intro ns records rest same
  obtain ⟨rfl, rfl, rfl⟩ := by simpa using same
  exact ⟨route, rfl, entry⟩

theorem Reads.step_conclude (small : max.toNat < 2 ^ 63)
    (reads : d.Reads max (.between (b :: blocks))) (ends : b.header.eof) :
    ∃ reader route, (b.header.ns, route) ∈ d.roster.registry.entries ∧
      d.step = ({ d with reader, place := .inside } : Demultiplexer).conclude b.header.ns route ∧
      d.step.Reads max (.ending blocks) := by
  obtain ⟨known, bare, others⟩ := reads.fulfils
  obtain ⟨reader, route, entry, after, taken⟩ := reads.step_header small
  obtain ⟨-, formedRest⟩ := List.forall_mem_cons.1 reads.formed.2
  rw [if_pos ends] at taken
  simp only [Block.remaining, ends, if_true] at others
  rw [bare ends] at after
  refine ⟨reader, route, entry, taken, ?_⟩
  rw [taken]
  refine ⟨reads.reading, rfl, ⟨_, after⟩, ⟨by simp [Rest.records], formedRest⟩,
    reads.valid.close known, ?_, by simp⟩
  change Block.Fulfils (d.roster.registry.close b.header.ns).keys blocks
  rw [Registry.keys_close]
  exact others

/-- The delimiter of a block whose records have been read. -/
theorem Reads.step_close {rest : Rest} (small : max.toNat < 2 ^ 63) (reads : d.Reads max rest)
    (whole : (∃ ns, rest = .inside ns [] blocks) ∨ rest = .ending blocks) :
    ∃ reader, d.step = { d with reader, place := .between } ∧
      d.step.Reads max (.between blocks) := by
  have stands : d.place = .inside := by
    rw [reads.place]
    rcases whole with ⟨ns, rfl⟩ | rfl <;> rfl
  have same : rest.blocks = blocks := by rcases whole with ⟨ns, rfl⟩ | rfl <;> rfl
  have front : rest.bytes = Token.delimiterBytes ++ blocks.flatMap Block.bytes := by
    rcases whole with ⟨ns, rfl⟩ | rfl <;> rfl
  obtain ⟨offset, place⟩ := reads.ahead
  rw [front] at place
  obtain ⟨reader, part, after⟩ := Block.nextPart_close small place
  have taken := step_of_part reads.reading (by rw [stands]; exact part)
  refine ⟨reader, taken, ?_⟩
  rw [taken]
  exact ⟨reads.reading, rfl, ⟨_, after⟩, ⟨by simp, same ▸ reads.formed.2⟩, reads.valid,
    same ▸ reads.fulfils, by simp⟩

/-- A body record goes where the registry sends it. -/
theorem Reads.step_body (small : max.toNat < 2 ^ 63)
    (reads : d.Reads max (.inside ns (record :: records) blocks)) :
    ∃ reader route, (ns, route) ∈ d.roster.registry.entries ∧
      d.step = ({ d with reader } : Demultiplexer).deliver ns record route ∧
      ({ d with reader, summary := d.summary.count ns record } : Demultiplexer).Reads max
        (.inside ns records blocks) := by
  obtain ⟨offset, place⟩ := reads.ahead
  obtain ⟨formed, others⟩ := List.forall_mem_cons.1 reads.formed.1
  obtain ⟨route, current, entry⟩ := reads.current _ _ _ rfl
  have split : (Rest.inside ns (record :: records) blocks).bytes =
      record ++ (Rest.inside ns records blocks).bytes := by simp [Rest.bytes]
  rw [split] at place
  obtain ⟨reader, part, after⟩ := Block.nextPart_body small formed place
  have stands : d.place = .inside := reads.place
  have taken := step_of_part reads.reading (by rw [stands]; exact part)
  have whole := readBody_eq (d := { d with reader }) d.reader.offset record current
  refine ⟨reader, route, entry, taken.trans whole, ?_⟩
  · refine ⟨reads.reading, stands, ⟨_, after⟩, ⟨others, reads.formed.2⟩, reads.valid, reads.fulfils, ?_⟩
    intro other list rest same
    obtain ⟨rfl, -, -⟩ := by simpa using same
    exact ⟨route, current, entry⟩

theorem Reads.step_finish (reads : d.Reads max (.between [])) :
    d.roster.registry.entries = [] ∧
      ∃ reader, d.step = { d with reader, stage := .ending (.ok ()) } := by
  have nobody : d.roster.registry.entries = [] := List.map_eq_nil_iff.1 reads.fulfils
  obtain ⟨offset, place⟩ := reads.ahead
  obtain ⟨reader, part, -⟩ := Block.nextPart_finish place
  have stands : d.place = .between := reads.place
  have taken := step_of_part reads.reading (by rw [stands]; exact part)
  refine ⟨nobody, reader, ?_⟩
  rw [taken]
  simp [dispatch, readEnd, nobody]

end Demultiplexer
end DumpArchive
