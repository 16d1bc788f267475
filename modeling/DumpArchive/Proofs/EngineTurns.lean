import DumpArchive.Proofs.Positions
import DumpArchive.Proofs.Prefixes
import DumpArchive.Proofs.Scanning
import DumpArchive.Proofs.Wire

/-! The turns of an engine before any input. What it has read grows on a wire; the part that a turn
reads stood at the front of the input, or there is a fault at just that offset. Whoever is served
keeps the seat until the end of the namespace is read. -/
namespace DumpArchive

namespace Wire

variable {max : UInt64} {w : Wire} {b : Block} {lead record : Bytes} {header : CollectionHeader}

/-- Another record in the unfinished block. -/
def push (record : Bytes) (w : Wire) : Wire :=
  ⟨w.complete, w.unfinished.map fun b => { b with records := b.records ++ [record] }⟩

theorem bytes_enter (whole : w.unfinished = none) : (w.enter lead header).bytes = w.bytes ++ lead := by
  simp [bytes, enter, blocks, whole, Block.front]

theorem bytes_push (unfinished : w.unfinished = some b) :
    (w.push record).bytes = w.bytes ++ record := by
  simp [bytes, push, unfinished, Block.front]

theorem blocks_push (unfinished : w.unfinished = some b) :
    (w.push record).blocks = w.complete ++ [{ b with records := b.records ++ [record] }] := by
  simp [blocks, push, unfinished]

theorem bytes_terminate (unfinished : w.unfinished = some b) :
    w.terminate.bytes = w.bytes ++ Token.delimiterBytes := by
  simp [bytes, terminate, blocks, unfinished, Block.bytes]

theorem recordsOf_push (unfinished : w.unfinished = some b) (ns : Namespace) :
    Block.recordsOf ns (w.push record).blocks =
      Block.recordsOf ns w.blocks ++ if b.header.ns = ns then [record] else [] := by
  rw [blocks_push unfinished, blocks_of_unfinished unfinished]
  by_cases here : b.header.ns = ns <;> simp [here]

theorem formed_push (unfinished : w.unfinished = some b) (formed : ∀ b ∈ w.blocks, b.Formed max)
    (token : Record.Formed max record) : ∀ b ∈ (w.push record).blocks, b.Formed max := by
  rw [blocks_of_unfinished unfinished] at formed
  rw [blocks_push unfinished]
  obtain ⟨complete, last⟩ := List.forall_mem_append.1 formed
  refine List.forall_mem_append.2 ⟨complete, ?_⟩
  have good := last b (by simp)
  have records : ∀ r ∈ b.records ++ [record], Record.Formed max r :=
    List.forall_mem_append.2 ⟨good.records, by simpa using token⟩
  intro c here
  obtain rfl := List.mem_singleton.1 here
  exact ⟨good.lead, good.header, records⟩

theorem ended_enter (lead : Bytes) (header : CollectionHeader) (w : Wire) :
    (w.enter lead header).ended = w.ended ++ if header.eof then [header.ns] else [] := by
  cases ends : header.eof <;> simp [ended, ends]

theorem ended_push (record : Bytes) (w : Wire) : (w.push record).ended = w.ended := by
  cases unfinished : w.unfinished with
  | none => simp [ended, push, blocks, unfinished]
  | some b =>
    rw [ended, ended, blocks_push unfinished, blocks_of_unfinished unfinished]
    cases ends : b.header.eof <;> simp [ends]

@[simp] theorem ended_terminate (w : Wire) : w.terminate.ended = w.ended := by
  simp [ended]

end Wire

namespace Demultiplexer

variable {d : Demultiplexer} {max : UInt64} {origin : Nat} {v : Wire} {tail rest : Bytes}
  {lead record : Bytes} {header : CollectionHeader} {route : Route} {reader : Token.Reader}

/-- The engine has read `v`, which began at `origin`, and `tail` is still ahead. -/
structure Underway (max : UInt64) (origin : Nat) (v : Wire) (tail : Bytes) (d : Demultiplexer) :
    Prop where
  reading : d.stage = .reading
  ahead : d.reader.At max (origin + v.bytes.length) tail
  between : d.place = .between → v.unfinished = none
  inside : d.place = .inside →
    ∃ b, v.unfinished = some b ∧ ∀ entry ∈ d.current, b.header.ns = entry.1
  formed : ∀ b ∈ v.blocks, b.Formed max
  valid : d.roster.registry.Valid
  current : ∀ entry ∈ d.current, entry ∈ d.roster.registry.entries

theorem Underway.heed (underway : d.Underway max origin v (lead ++ rest))
    (place : d.place = .between) (token : Record.Formed max lead)
    (decodes : CollectionHeader.ofRecord? lead = some header)
    (entry : (header.ns, route) ∈ d.roster.registry.entries)
    (after : reader.At max (origin + v.bytes.length + lead.length) rest) :
    (({ d with reader, place := .inside } : Demultiplexer).heed header route).Underway
      max origin (v.enter lead header) rest := by
  have formed := Wire.formed_enter underway.formed token decodes
  have behind : reader.At max (origin + (v.enter lead header).bytes.length) rest := by
    rw [Wire.bytes_enter (underway.between place), List.length_append, ← Nat.add_assoc]
    exact after
  unfold Demultiplexer.heed
  split
  · exact ⟨underway.reading, behind, by simp [conclude], fun _ => ⟨_, rfl, by simp [conclude]⟩,
      formed, underway.valid.close (List.mem_map_of_mem entry), by simp [conclude]⟩
  · exact ⟨underway.reading, behind, by simp [select], fun _ => ⟨_, rfl, by simp [select]⟩,
      formed, underway.valid, by simpa [select] using entry⟩

theorem Underway.count {b : Block} {ns : Namespace}
    (underway : d.Underway max origin v (record ++ rest)) (unfinished : v.unfinished = some b)
    (same : ∀ entry ∈ d.current, b.header.ns = entry.1) (place : d.place = .inside)
    (token : Record.Formed max record)
    (after : reader.At max (origin + v.bytes.length + record.length) rest) :
    ({ d with reader, summary := d.summary.count ns record } : Demultiplexer).Underway
      max origin (v.push record) rest := by
  have behind : reader.At max (origin + (v.push record).bytes.length) rest := by
    rw [Wire.bytes_push unfinished, List.length_append, ← Nat.add_assoc]
    exact after
  refine ⟨underway.reading, behind, by simp [place], fun _ => ?_,
    Wire.formed_push unfinished underway.formed token, underway.valid, underway.current⟩
  exact ⟨{ b with records := b.records ++ [record] }, by simp [Wire.push, unfinished], same⟩

theorem Underway.close {b : Block}
    (underway : d.Underway max origin v (Token.delimiterBytes ++ rest))
    (unfinished : v.unfinished = some b)
    (after : reader.At max (origin + v.bytes.length + Token.delimiterBytes.length) rest) :
    ({ d with reader, place := .between } : Demultiplexer).Underway max origin v.terminate rest := by
  have behind : reader.At max (origin + v.terminate.bytes.length) rest := by
    rw [Wire.bytes_terminate unfinished, List.length_append, ← Nat.add_assoc]
    exact after
  exact ⟨underway.reading, behind, fun _ => rfl, by simp, by simpa using underway.formed,
    underway.valid, underway.current⟩

/-- What a turn comes to: one part of a block is taken from the front of the input, or the engine
comes to its end. -/
inductive Turn (max : UInt64) (origin : Nat) (v : Wire) (tail : Bytes) (d : Demultiplexer) : Prop
  | enters {start : Nat} {lead rest : Bytes} {header : CollectionHeader} {route : Route}
    {reader : Token.Reader} :
    Block.nextPart d.place d.reader = (.ok (.header start lead), reader) → tail = lead ++ rest →
    v.unfinished = none → CollectionHeader.ofRecord? lead = some header →
    (header.ns, route) ∈ d.roster.registry.entries →
    d.step = ({ d with reader, place := .inside } : Demultiplexer).heed header route →
    d.step.Underway max origin (v.enter lead header) rest → Turn max origin v tail d
  | meets {start : Nat} {record rest : Bytes} {b : Block} {route : Route}
    {reader : Token.Reader} :
    Block.nextPart d.place d.reader = (.ok (.body start record), reader) → tail = record ++ rest →
    v.unfinished = some b → (b.header.ns, route) ∈ d.roster.registry.entries →
    d.step = ({ d with reader } : Demultiplexer).deliver b.header.ns record route →
    ({ d with reader, summary := d.summary.count b.header.ns record } : Demultiplexer).Underway
      max origin (v.push record) rest → Turn max origin v tail d
  | closes {rest : Bytes} {b : Block} {reader : Token.Reader} :
    Block.nextPart d.place d.reader = (.ok .close, reader) → tail = Token.delimiterBytes ++ rest →
    v.unfinished = some b → d.step = { d with reader, place := .between } →
    d.step.Underway max origin v.terminate rest → Turn max origin v tail d
  | ends {reader : Token.Reader} : tail = [] → v.unfinished = none →
    d.roster.registry.entries = [] → d.step = { d with reader, stage := .ending (.ok ()) } →
    Turn max origin v tail d
  | fails (defect : Defect) :
    d.step.stage = .ending (.error (.frame (.corrupt (origin + v.bytes.length) defect))) →
    d.step.roster = d.roster → d.step.ended = d.ended → Turn max origin v tail d

theorem Underway.turn (small : max.toNat < 2 ^ 63) (underway : d.Underway max origin v tail) :
    Turn max origin v tail d := by
  have reading := underway.reading
  have counted := underway.ahead.counted
  cases found : Block.nextPart d.place d.reader with
  | mk result reader =>
    cases result with
    | error fault =>
      obtain ⟨defect, rfl⟩ := Block.corrupt_of_nextPart underway.ahead found
      have fails : d.step = { d with reader, stage := .ending (.error (.frame
          (.corrupt (origin + v.bytes.length) defect))) } := by simp only [step, reading, found]
      exact .fails defect (by rw [fails]) (by rw [fails]) (by rw [fails])
    | ok part =>
      have balanced := Block.balanced_of_nextPart found
      have turn := step_of_part reading found
      obtain ⟨rest, fronted, stands⟩ := Block.fronted_of_nextPart small underway.ahead found
      generalize place : d.place = here at fronted
      cases fronted with
      | @header start lead rest token =>
        have after := balanced.stands underway.ahead stands
        obtain ⟨mid, same, -⟩ := Block.nextPart_header small token underway.ahead
        have whole := found
        rw [place] at whole
        cases whole.symm.trans same
        rw [dispatch] at turn
        rcases readHeader_cases d.reader.offset lead { d with reader, place := .inside } with
          ⟨defect, rejects⟩ | ⟨header, route, decodes, known, heeds⟩
        · have fails := turn.trans rejects
          exact .fails defect (by rw [fails, counted]; rfl) (by rw [fails]; rfl)
            (by rw [fails]; rfl)
        · have entry := underway.valid.find?_eq_some_iff.1 known
          have goes := turn.trans heeds
          exact .enters found rfl (underway.between place) decodes entry goes
            (goes ▸ underway.heed place token decodes entry after)
      | @body start record rest token =>
        have after := balanced.stands underway.ahead stands
        obtain ⟨mid, same, -⟩ := Block.nextPart_body small token underway.ahead
        have whole := found
        rw [place] at whole
        cases whole.symm.trans same
        rw [dispatch] at turn
        rcases readBody_cases d.reader.offset record { d with reader } with
          ⟨defect, rejects⟩ | ⟨ns, route, current, delivers⟩
        · have fails := turn.trans rejects
          exact .fails defect (by rw [fails, counted]; rfl) (by rw [fails]; rfl)
            (by rw [fails]; rfl)
        · have current : d.current = some (ns, route) := current
          obtain ⟨b, unfinished, same⟩ := underway.inside place
          obtain rfl : b.header.ns = ns := same _ current
          exact .meets found rfl unfinished (underway.current _ current) (turn.trans delivers)
            (underway.count unfinished same place token after)
      | @close rest =>
        obtain ⟨b, unfinished, -⟩ := underway.inside place
        have goes : d.step = { d with reader, place := .between } := turn
        exact .closes found rfl unfinished goes
          (goes ▸ underway.close unfinished (balanced.stands underway.ahead stands))
      | @finish start =>
        obtain ⟨mid, same, -⟩ := Block.nextPart_finish underway.ahead
        have whole := found
        rw [place] at whole
        cases whole.symm.trans same
        rw [dispatch] at turn
        rcases readEnd_cases d.reader.offset { d with reader } with ⟨defect, rejects⟩ | nobody
        · have fails := turn.trans rejects
          exact .fails defect (by rw [fails, counted]; rfl) (by rw [fails]; rfl)
            (by rw [fails]; rfl)
        · have nobody : d.roster.registry.entries = [] := nobody
          have ends : d.step = { d with reader, stage := .ending (.ok ()) } := by
            rw [turn]
            simp only [readEnd, nobody]
          exact .ends rfl (underway.between place) nobody ends

section Seating

variable {labels : List (Namespace × Nat)} {registry : Registry Route} {ended : List Nat}
  {ns : Namespace}

/-- Whoever has a label is served under its number until its namespace ends, and nobody else is. -/
structure Seats (labels : List (Namespace × Nat)) (registry : Registry Route) (ended : List Nat) :
    Prop where
  names : (labels.map (·.1)).Nodup
  numbers : (labels.map (·.2)).Nodup
  routes : ∀ ns number, (ns, .outlet number) ∈ registry.entries → (ns, number) ∈ labels
  seated : ∀ l ∈ labels, (l.1, .outlet l.2) ∈ registry.entries ∨
    l.1 ∉ registry.keys ∧ l.2 ∈ ended

/-- Nobody waits for the records of a namespace that are discarded. -/
theorem Seats.apart (seats : Seats labels registry ended) (valid : registry.Valid)
    (entry : (ns, .discard) ∈ registry.entries) : ∀ l ∈ labels, l.1 ≠ ns := by
  rintro l member rfl
  rcases seats.seated l member with served | ⟨past, -⟩
  · have twice := valid.find?_eq_some_iff.2 served
    simp [valid.find?_eq_some_iff.2 entry] at twice
  · exact past (List.mem_map_of_mem entry)

theorem Seats.close (seats : Seats labels registry ended) (valid : registry.Valid)
    (entry : (ns, route) ∈ registry.entries) :
    Seats labels (registry.close ns) (route.endedAfter ended) := by
  refine ⟨seats.names, seats.numbers,
    fun key number left => seats.routes key number (List.mem_of_mem_filter left), ?_⟩
  intro l member
  rw [Registry.keys_close, List.mem_filter]
  rcases seats.seated l member with served | ⟨past, done⟩
  · by_cases same : l.1 = ns
    · -- the end that is read is this one's own
      have own := valid.find?_eq_some_iff.2 served
      rw [same, valid.find?_eq_some_iff.2 entry] at own
      obtain rfl := Option.some.inj own
      exact .inr ⟨by simp [same], List.mem_cons_self ..⟩
    · exact .inl (List.mem_filter.2 ⟨served, by simpa using same⟩)
  · refine .inr ⟨fun left => past left.1, ?_⟩
    cases route with
    | discard => exact done
    | outlet number => exact List.mem_cons_of_mem _ done

/-- A header seats nobody anew: it selects a namespace, or it ends one and empties a seat. -/
theorem Seats.heed {header : CollectionHeader} (seats : Seats labels d.roster.registry d.ended)
    (valid : d.roster.registry.Valid) (entry : (header.ns, route) ∈ d.roster.registry.entries) :
    Seats labels (d.heed header route).roster.registry (d.heed header route).ended := by
  unfold Demultiplexer.heed
  split
  · exact seats.close valid entry
  · exact seats

end Seating

end Demultiplexer
end DumpArchive
