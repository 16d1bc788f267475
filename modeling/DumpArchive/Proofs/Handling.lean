import DumpArchive.Multiplexer
import DumpArchive.Proofs.Registrations
import DumpArchive.Proofs.Wire

/-! One event in the hands of a multiplexer. It is ignored, or it lengthens the wire by a record or
by the end of a namespace, or its writing fails. On a stream without faults a failure ends the
unfinished block and writes nothing else. -/
namespace DumpArchive.Multiplexer

open Token (Writer)

/-- Who has posted an event. -/
def Event.producer : Event → Nat
  | .record producer _ => producer
  | .closed producer => producer

@[simp] theorem Event.producer_record (producer : Nat) (bytes : Bytes) :
    (Event.record producer bytes).producer = producer := rfl

@[simp] theorem Event.producer_closed (producer : Nat) :
    (Event.closed producer).producer = producer := rfl

/-- Producers check their records before they post them. -/
def Event.Formed (max : UInt64) : Event → Prop
  | .record _ bytes => Record.Formed max bytes
  | .closed _ => True

/-- All that the handling of an event can come to. -/
inductive Handled (m : Multiplexer) :
    Event → Except FrameError (Option (Nat × Nat)) → Multiplexer → Prop
  | ignored {event : Event} : m.namespaceOf? event.producer = none → Handled m event (.ok none) m
  | added {producer : Nat} {bytes : Bytes} {ns : Namespace} {writer : Writer} :
    m.namespaceOf? producer = some ns →
    (∀ t ∈ m.entering ns ++ [Token.record bytes], t.Formed m.writer.max) →
    m.writer.Wrote ((m.entering ns ++ [Token.record bytes]).flatMap Token.bytes) writer →
    Handled m (.record producer bytes) (.ok (some (producer, bytes.length)))
      { m with writer, current := some ns, summary := m.summary.count ns bytes }
  | ended {producer : Nat} {ns : Namespace} {writer : Writer} :
    m.namespaceOf? producer = some ns →
    (∀ t ∈ m.ending ns, t.Formed m.writer.max) →
    m.writer.Wrote ((m.ending ns).flatMap Token.bytes) writer →
    Handled m (.closed producer) (.ok none)
      { m with
        writer
        current := none
        registry := m.registry.close ns
        summary := m.summary.touch ns }
  | failed {event : Event} {e : FrameError} {ns : Namespace} {writer : Writer}
    {current : Option Namespace} :
    m.namespaceOf? event.producer = some ns →
    writer.max = m.writer.max →
    (m.writer.sink.Sound → event.Formed m.writer.max →
      current = none ∧ m.writer.Wrote (m.leaving.flatMap Token.bytes) writer) →
    Handled m event (.error e) { m with writer, current }

/-- Without faults nothing but the lead of a new block can fail its check. -/
theorem wrote_leaving {m : Multiplexer} {lead : Bytes} {rest : List Token} {e : FrameError}
    {writer : Writer} (sound : m.writer.sink.Sound) (delimiters : ∀ t ∈ rest, t = .delimiter)
    (h : m.writer.writeTokens (m.leaving ++ .record lead :: rest) = (.error e, writer)) :
    m.writer.Wrote (m.leaving.flatMap Token.bytes) writer := by
  obtain ⟨front, bad, back, split, -, unformed, wrote⟩ := Writer.of_writeTokens_error sound h
  have record : bad ≠ .delimiter := by
    rintro rfl
    exact unformed trivial
  have leaving : m.leaving = [] ∨ m.leaving = [.delimiter] := by
    unfold leaving
    split <;> simp
  have stops : front = m.leaving := by
    rcases leaving with none | one
    · rw [none] at split ⊢
      cases front with
      | nil => rfl
      | cons t front =>
        have late : bad ∈ rest := by simp_all
        exact absurd (delimiters bad late) record
    · rw [one] at split ⊢
      cases front with
      | nil => exact absurd (List.cons.inj split).1.symm record
      | cons t front =>
        obtain ⟨rfl, split⟩ := List.cons.inj split
        cases front with
        | nil => rfl
        | cons t front =>
          have late : bad ∈ rest := by
            have tail := (List.cons.inj split).2
            simp_all
          exact absurd (delimiters bad late) record
  exact stops ▸ wrote

theorem handled (event : Event) (m : Multiplexer) :
    Handled m event (m.handle event).1 (m.handle event).2 := by
  cases event with
  | record producer bytes =>
    cases known : m.namespaceOf? producer with
    | none =>
      simp only [handle, known]
      exact .ignored known
    | some ns =>
      cases opened : m.writer.writeTokens (m.entering ns) with
      | mk result writer =>
        have limit : writer.max = m.writer.max := by
          simpa [opened] using Writer.max_writeTokens (m.entering ns) m.writer
        cases result with
        | error e =>
          simp only [handle, known, opened]
          refine .failed known limit fun sound _ => ⟨rfl, ?_⟩
          unfold entering at opened
          split at opened
          · simp [Writer.writeTokens] at opened
          · exact wrote_leaving sound (by simp) opened
        | ok =>
          obtain ⟨formed, front⟩ := Writer.wrote_of_writeTokens opened
          cases whole : writer.writeToken (.record bytes) with
          | mk result last =>
            have same : last.max = writer.max := by
              simpa [whole] using Writer.max_writeToken (.record bytes) writer
            cases result with
            | error e =>
              simp only [handle, known, opened, whole]
              refine .failed known (same.trans limit) fun sound passed => ?_
              have passes : (Token.record bytes).Formed writer.max := limit ▸ passed
              obtain ⟨other, written⟩ := Writer.writeToken_sound (front.sound sound) passes
              simp [written] at whole
            | ok =>
              obtain ⟨good, back⟩ := Writer.wrote_of_writeToken whole
              simp only [handle, known, opened, whole]
              refine .added known ?_ ?_
              · simpa [or_imp, forall_and] using ⟨formed, limit ▸ good⟩
              · simpa using front.trans back
  | closed producer =>
    cases known : m.namespaceOf? producer with
    | none =>
      simp only [handle, known]
      exact .ignored known
    | some ns =>
      cases written : m.writer.writeTokens (m.ending ns) with
      | mk result writer =>
        have limit : writer.max = m.writer.max := by
          simpa [written] using Writer.max_writeTokens (m.ending ns) m.writer
        cases result with
        | error e =>
          simp only [handle, known, written]
          refine .failed known limit fun sound _ => ⟨rfl, ?_⟩
          exact wrote_leaving sound (by simp) written
        | ok =>
          obtain ⟨formed, wrote⟩ := Writer.wrote_of_writeTokens written
          simp only [handle, known, written]
          exact .ended known formed wrote

/-- The wire after an event that was handled without an error. -/
def onWire (event : Event) (m : Multiplexer) (w : Wire) : Wire :=
  match m.namespaceOf? event.producer, event with
  | none, _ => w
  | some ns, .record _ bytes => w.add ns bytes
  | some ns, .closed _ => w.close ns

/-- The stream holds what it held at first and then the wire, and the cursor stands in the
unfinished block. -/
structure Shows (m : Multiplexer) (base : Bytes) (w : Wire) : Prop where
  accepted : m.writer.sink.accepted = base ++ w.bytes
  formed : ∀ b ∈ w.blocks, b.Formed m.writer.max
  cursor : m.current = w.cursor

variable {m next : Multiplexer} {base : Bytes} {w : Wire} {event : Event} {ns : Namespace}

theorem leaving_eq (cursor : m.current = w.cursor) :
    m.leaving = w.unfinished.toList.map fun _ => .delimiter := by
  cases unfinished : w.unfinished <;> simp [leaving, cursor, Wire.cursor, unfinished]

theorem bytes_terminate (cursor : m.current = w.cursor) :
    w.terminate.bytes = w.bytes ++ m.leaving.flatMap Token.bytes := by
  rw [leaving_eq cursor]
  cases unfinished : w.unfinished with
  | none => simp [Wire.terminate, Wire.bytes, Wire.blocks, unfinished]
  | some b => simp [Wire.terminate, Wire.bytes, Wire.blocks, unfinished, Block.bytes, Token.bytes]

theorem bytes_add (cursor : m.current = w.cursor) (record : Bytes) :
    (w.add ns record).bytes =
      w.bytes ++ (m.entering ns ++ [Token.record record]).flatMap Token.bytes := by
  rcases Wire.add_cases ns record w with ⟨b, unfinished, same, added⟩ | ⟨elsewhere, added⟩
  · have here : m.current = some ns := by simp [cursor, Wire.cursor, unfinished, same]
    simp [added, entering, here, Wire.bytes, unfinished, Block.front, Token.bytes]
  · have there : m.current ≠ some ns := cursor ▸ elsewhere
    have left := bytes_terminate cursor
    simp only [Wire.terminate, Wire.bytes, Option.toList_none, List.flatMap_nil,
      List.append_nil] at left
    simp [added, entering, there, Wire.bytes, left, Block.front, Block.ofHeader, Token.bytes]

theorem bytes_close (cursor : m.current = w.cursor) :
    (w.close ns).bytes = w.bytes ++ (m.ending ns).flatMap Token.bytes := by
  have left := bytes_terminate cursor
  simp only [Wire.terminate, Wire.bytes, Option.toList_none, List.flatMap_nil,
    List.append_nil] at left
  simp [Wire.close, ending, Wire.bytes, left, Block.bytes, Block.front, Block.ofHeader, Token.bytes]

theorem formed_add {max : UInt64} {record : Bytes} (before : ∀ b ∈ w.blocks, b.Formed max)
    (cursor : m.current = w.cursor)
    (formed : ∀ t ∈ m.entering ns ++ [Token.record record], t.Formed max) :
    ∀ b ∈ (w.add ns record).blocks, b.Formed max := by
  have good : Record.Formed max record := formed (.record record) (by simp)
  intro c member
  rcases Wire.add_cases ns record w with ⟨b, unfinished, same, added⟩ | ⟨elsewhere, added⟩
  · rw [added] at member
    rw [Wire.blocks_of_unfinished unfinished] at before
    rcases List.mem_append.1 member with earlier | here
    · exact before c (List.mem_append_left _ earlier)
    · obtain rfl := by simpa using here
      have old := before b (by simp)
      refine ⟨old.lead, old.header, ?_⟩
      simpa [or_imp, forall_and, good] using old.records
  · rw [added] at member
    rcases List.mem_append.1 member with earlier | here
    · exact before c earlier
    · obtain rfl := by simpa using here
      have there : m.current ≠ some ns := cursor ▸ elsewhere
      have lead : Record.Formed max (CollectionHeader.record ⟨ns, false⟩) :=
        formed (.record _) (by simp [entering, there])
      exact Block.formed_ofHeader lead (by simpa using good)

theorem formed_close {max : UInt64} (before : ∀ b ∈ w.blocks, b.Formed max)
    (formed : ∀ t ∈ m.ending ns, t.Formed max) : ∀ b ∈ (w.close ns).blocks, b.Formed max := by
  have lead : Record.Formed max (CollectionHeader.record ⟨ns, true⟩) :=
    formed (.record _) (by simp [ending])
  simpa [or_imp, forall_and] using ⟨before, Block.formed_ofHeader lead (by simp)⟩

theorem Shows.handle {ack : Option (Nat × Nat)} (view : m.Shows base w)
    (handled : Handled m event (.ok ack) next) : next.Shows base (m.onWire event w) := by
  cases handled with
  | ignored unknown => simpa [onWire, unknown] using view
  | added known formed wrote =>
    simp only [onWire, Event.producer_record, known]
    refine ⟨?_, ?_, (Wire.cursor_add ..).symm⟩
    · rw [bytes_add view.cursor, ← List.append_assoc, ← view.accepted]
      exact wrote.accepted
    · exact wrote.limit ▸ formed_add view.formed view.cursor formed
  | ended known formed wrote =>
    simp only [onWire, Event.producer_closed, known]
    refine ⟨?_, ?_, rfl⟩
    · rw [bytes_close view.cursor, ← List.append_assoc, ← view.accepted]
      exact wrote.accepted
    · exact wrote.limit ▸ formed_close view.formed formed

/-- Without faults a failure leaves whole blocks. -/
theorem Shows.fail {e : FrameError} (view : m.Shows base w) (sound : m.writer.sink.Sound)
    (passed : event.Formed m.writer.max) (handled : Handled m event (.error e) next) :
    next.Shows base w.terminate := by
  cases handled with
  | failed known limit clean =>
    obtain ⟨rfl, wrote⟩ := clean sound passed
    refine ⟨?_, ?_, rfl⟩
    · rw [bytes_terminate view.cursor, ← List.append_assoc, ← view.accepted]
      exact wrote.accepted
    · simpa [limit] using view.formed

end DumpArchive.Multiplexer
