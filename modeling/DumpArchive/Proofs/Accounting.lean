import DumpArchive.Proofs.MultiplexerMoves

/-! Each record of a handle is accounted for. Of all that goes on, one handle is concerned only by
what the mailbox, the acknowledgements, the registry and the wire hold for it: its sight of the
exchange. A move changes the sight of one handle, and its own state along with it. -/
namespace DumpArchive.Multiplexer

/-- The records of a producer that are in the mailbox. -/
def sent (number : Nat) (mailbox : List Event) : List Bytes :=
  mailbox.filterMap fun event => match event with
    | .record producer bytes => if producer = number then some bytes else none
    | .closed _ => none

/-- The sizes that a producer has been told and has not fetched. -/
def acked (number : Nat) (acks : List (Nat × Nat)) : List Nat :=
  acks.filterMap fun (producer, size) => if producer = number then some size else none

structure Sight where
  sent : List Bytes
  acked : List Nat
  /-- The end of the namespace is in the mailbox. -/
  closing : Prop
  registered : Prop
  /-- The namespace has ended. -/
  past : Prop
  /-- What stands on the wire. -/
  records : List Bytes

def Handle.sight (x : Exchange) (w : Wire) (h : Handle) : Sight where
  sent := Multiplexer.sent h.number x.mailbox
  acked := Multiplexer.acked h.number x.acks
  closing := Event.closed h.number ∈ x.mailbox
  registered := (h.ns, h.number) ∈ x.engine.registry.entries
  past := h.ns ∈ x.engine.registry.closed
  records := Block.recordsOf h.ns w.blocks

/-- Where the pending record is: nowhere, in the mailbox unless the engine has let go of the
producer, or on the wire as the last one. -/
inductive Standing (s : Sight) : Option Bytes → List Bytes → Prop
  | idle : s.acked = [] → (s.registered → s.sent = []) → Standing s none []
  | posted {r : Bytes} : s.acked = [] → (s.registered → s.sent = [r]) → Standing s (some r) []
  | acknowledged {r : Bytes} : s.acked = [r.length] → (s.registered → s.sent = []) →
    Standing s (some r) [r]

/-- The wire holds the records of the writes that have succeeded, and of a write that has and does
not know it yet. A handle that was let go of ends its namespace. -/
structure Handle.Kept (s : Sight) (h : Handle) : Prop where
  releasing : s.closing → h.released
  closing : h.released → s.registered → s.closing
  settled : h.released → h.pending = none
  past : s.past → h.released ∧ ¬ s.registered
  written : ∃ extra, Standing s h.pending extra ∧ s.records = h.written ++ extra

namespace Handle

variable {s next : Sight} {h : Handle} {record : Bytes}

/-- A producer that the engine has let go of is owed nothing more. -/
theorem Kept.unregistered (kept : h.Kept s) (gone : ¬ next.registered)
    (acked : next.acked = s.acked) (closing : next.closing → s.closing) (past : next.past = s.past)
    (records : next.records = s.records) : h.Kept next where
  releasing ends := kept.releasing (closing ends)
  closing _ registered := absurd registered gone
  settled := kept.settled
  past ends := ⟨(kept.past (past ▸ ends)).1, gone⟩
  written := by
    obtain ⟨extra, standing, split⟩ := kept.written
    refine ⟨extra, ?_, records.trans split⟩
    generalize h.pending = pending at standing ⊢
    cases standing with
    | idle none empty => exact .idle (acked.trans none) (by simp [gone])
    | posted none waits => exact .posted (acked.trans none) (by simp [gone])
    | acknowledged one empty => exact .acknowledged (acked.trans one) (by simp [gone])

/-- The engine writes the record that the handle has posted. -/
theorem Kept.added {rest : List Bytes} (kept : h.Kept s) (registered : s.registered)
    (front : s.sent = record :: rest) :
    h.Kept { s with
      sent := rest, acked := s.acked ++ [record.length], records := s.records ++ [record] } where
  releasing := kept.releasing
  closing := kept.closing
  settled := kept.settled
  past := kept.past
  written := by
    obtain ⟨extra, standing, split⟩ := kept.written
    generalize h.pending = pending at standing ⊢
    cases standing with
    | idle none empty => simp [empty registered] at front
    | acknowledged one empty => simp [empty registered] at front
    | posted none waits =>
      have whole := (waits registered).symm.trans front
      obtain ⟨rfl, rfl⟩ := List.cons.inj whole
      exact ⟨[_], .acknowledged (by simp [none]) (by simp), by simp [split]⟩

/-- The engine ends the namespace of a handle that was let go of. -/
theorem Kept.ended (kept : h.Kept s) (ends : s.closing) (rest : List Bytes) (closing : Prop) :
    h.Kept { s with sent := rest, closing, registered := False, past := True } where
  releasing _ := kept.releasing ends
  closing _ registered := False.elim registered
  settled := kept.settled
  past _ := ⟨kept.releasing ends, id⟩
  written := by
    obtain ⟨extra, standing, split⟩ := kept.written
    refine ⟨extra, ?_, split⟩
    rw [kept.settled (kept.releasing ends)] at standing ⊢
    cases standing with
    | idle none empty => exact .idle none (by simp)

theorem Kept.fresh {number : Nat} {ns : Namespace} (sent : s.sent = []) (acked : s.acked = [])
    (closing : ¬ s.closing) (past : ¬ s.past) (records : s.records = []) :
    (Handle.fresh number ns).Kept s where
  releasing ends := absurd ends closing
  closing released := by contradiction
  settled _ := rfl
  past ends := absurd ends past
  written := ⟨[], .idle acked fun _ => sent, records⟩

theorem Kept.rejected {e : EngineError} (kept : h.Kept s) (free : h.isFree) :
    (h.answer record (.error e)).Kept s := by
  have none : h.pending = none := by simp_all [isFree]
  refine ⟨kept.releasing, kept.closing, fun _ => rfl, kept.past, ?_⟩
  obtain ⟨extra, standing, split⟩ := kept.written
  rw [none] at standing
  exact ⟨extra, standing, by simpa [Handle.written, answer] using split⟩

theorem Kept.posted (kept : h.Kept s) (free : h.isFree) (record : Bytes) :
    Handle.Kept { s with sent := s.sent ++ [record] } { h with pending := some record } := by
  have none : h.pending = none := by simp_all [isFree]
  have held : h.released = false := by simp_all [isFree]
  refine ⟨kept.releasing, kept.closing, fun released => ?_, kept.past, ?_⟩
  · simp [held] at released
  · obtain ⟨extra, standing, split⟩ := kept.written
    rw [none] at standing
    cases standing with
    | idle none empty =>
      exact ⟨[], .posted none fun registered => by simp [empty registered], split⟩

/-- The handle learns what has become of its record: it was written, or the engine is gone. -/
theorem Kept.collected (kept : h.Kept s) (pending : h.pending = some record) :
    (∃ size rest, s.acked = size :: rest ∧
      Handle.Kept { s with acked := [] } (h.answer record (.ok size))) ∨
    (s.acked = [] ∧ (¬ s.registered → ∀ e, (h.answer record (.error e)).Kept s)) := by
  obtain ⟨extra, standing, split⟩ := kept.written
  rw [pending] at standing
  cases standing with
  | posted none waits =>
    refine .inr ⟨none, fun gone e => ?_⟩
    refine ⟨kept.releasing, kept.closing, fun _ => rfl, kept.past, ?_⟩
    exact ⟨[], .idle none (by simp [gone]), by simpa [Handle.written, answer] using split⟩
  | acknowledged one empty =>
    refine .inl ⟨record.length, [], one, ?_⟩
    refine ⟨kept.releasing, kept.closing, fun _ => rfl, kept.past, ?_⟩
    exact ⟨[], .idle rfl empty, by simpa [Handle.written, answer] using split⟩

theorem Kept.released (kept : h.Kept s) (free : h.isFree) :
    Handle.Kept { s with closing := True } { h with released := true } := by
  have none : h.pending = none := by simp_all [isFree]
  refine ⟨fun _ => rfl, fun _ _ => trivial, fun _ => none, fun past => ⟨rfl, (kept.past past).2⟩, ?_⟩
  obtain ⟨extra, standing, split⟩ := kept.written
  refine ⟨extra, ?_, split⟩
  change Standing _ h.pending extra
  rw [none] at standing ⊢
  cases standing with
  | idle none empty => exact .idle none empty

end Handle

variable {number producer : Nat} {mailbox : List Event} {acks : List (Nat × Nat)}

theorem sent_cons_other {event : Event} (other : event.producer ≠ number) :
    sent number (event :: mailbox) = sent number mailbox := by
  cases event with
  | record producer bytes => simp_all [sent]
  | closed => simp [sent]

theorem sent_cons_record (bytes : Bytes) :
    sent number (.record number bytes :: mailbox) = bytes :: sent number mailbox := by
  simp [sent]

theorem sent_concat_other {event : Event} (other : event.producer ≠ number) :
    sent number (mailbox ++ [event]) = sent number mailbox := by
  cases event with
  | record producer bytes => simp_all [sent]
  | closed => simp [sent]

theorem sent_concat_record (bytes : Bytes) :
    sent number (mailbox ++ [.record number bytes]) = sent number mailbox ++ [bytes] := by
  simp [sent]

theorem sent_concat_closed :
    sent number (mailbox ++ [.closed producer]) = sent number mailbox := by
  simp [sent]

theorem sent_eq_nil (quiet : ∀ event ∈ mailbox, event.producer ≠ number) :
    sent number mailbox = [] := by
  apply List.filterMap_eq_nil_iff.2
  intro event member
  have other := quiet event member
  cases event with
  | record producer bytes => simpa using other
  | closed => rfl

theorem acked_concat (producer size : Nat) :
    acked number (acks ++ [(producer, size)]) =
      acked number acks ++ if producer = number then [size] else [] := by
  by_cases same : producer = number <;> simp [acked, same]

theorem acked_eq_nil (quiet : ∀ a ∈ acks, a.1 ≠ number) : acked number acks = [] := by
  apply List.filterMap_eq_nil_iff.2
  intro a member
  simpa using quiet a member

/-- Fetching an acknowledgement leaves those of other producers. -/
theorem acked_fetched (other : number ≠ producer) :
    acked number (acks.filter (·.1 ≠ producer)) = acked number acks := by
  induction acks with
  | nil => rfl
  | cons a rest ih =>
    obtain ⟨other', size⟩ := a
    by_cases same : other' = producer
    · subst same
      simpa [acked, other.symm] using ih
    · by_cases mine : other' = number <;> simp_all [acked]

theorem acked_self_fetched : acked number (acks.filter (·.1 ≠ number)) = [] := by
  apply acked_eq_nil
  intro a member
  simpa using List.of_mem_filter member

theorem find?_acks (number : Nat) (acks : List (Nat × Nat)) :
    (acks.find? (·.1 = number)).map (·.2) = (acked number acks).head? := by
  induction acks with
  | nil => rfl
  | cons a rest ih =>
    obtain ⟨producer, size⟩ := a
    by_cases same : producer = number <;> simp_all [acked]

end DumpArchive.Multiplexer
