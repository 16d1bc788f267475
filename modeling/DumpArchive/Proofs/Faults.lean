import DumpArchive.Proofs.Decoding
import DumpArchive.Proofs.Handling

/-! Output that fails. Wherever a stream breaks off, what it has accepted is whole tokens and a
strict part of the next, which nobody can take for a token. -/
namespace DumpArchive

namespace Token

variable {max : UInt64} {t : Token} {part : Bytes}

theorem not_stands_nil : ¬ Stands max [] := by
  rintro ⟨u, rest, formed, split⟩
  exact bytes_ne_nil formed (List.append_eq_nil_iff.1 split.symm).1

/-- No token stands in front of the rest of one. -/
theorem not_stands_part (formed : t.Formed max) (front : part <+: t.bytes) (cut : part ≠ t.bytes) :
    ¬ Stands max part := by
  rintro ⟨u, rest, other, split⟩
  obtain ⟨left, whole⟩ := front
  have same : u.bytes ++ (rest ++ left) = t.bytes ++ [] := by
    rw [← List.append_assoc, ← split, whole, List.append_nil]
  obtain ⟨rfl, nothing⟩ := bytes_append_inj other formed same
  obtain ⟨rfl, -⟩ := List.append_eq_nil_iff.1 nothing
  exact cut (by simpa using split)

end Token

namespace Sink

theorem write_error {b : Bytes} {s next : Sink} {e : IoError} (h : s.write b = (.error e, next)) :
    next.accepted = s.accepted := by
  simp only [write] at h
  split at h
  · obtain ⟨-, rfl⟩ := by simpa using h
    rfl
  · simp at h

/-- A write that fails has put out a strict part of its item. -/
theorem accepted_of_writeAll_error {stuck e : IoError} {b : Bytes} {s next : Sink}
    (h : s.writeAll stuck b = (.error e, next)) :
    ∃ part, part <+: b ∧ part ≠ b ∧ next.accepted = s.accepted ++ part := by
  fun_induction writeAll stuck b s with
  | case1 => simp at h
  | case2 s first rest failed mid wrote =>
    obtain ⟨-, rfl⟩ := by simpa using h
    exact ⟨[], List.nil_prefix, by simp, by simp [write_error wrote]⟩
  | case3 s first rest mid wrote =>
    obtain ⟨-, rfl⟩ := by simpa using h
    exact ⟨[], List.nil_prefix, by simp, by simp [accepted_of_write wrote]⟩
  | case4 s first rest n mid wrote ih =>
    obtain ⟨part, front, cut, accepted⟩ := ih h
    have whole : first :: rest = (first :: rest.take n) ++ rest.drop n := by simp
    refine ⟨(first :: rest.take n) ++ part, ?_, ?_, ?_⟩
    · rw [whole]
      exact (List.prefix_append_right_inj _).2 front
    · rw [whole]
      exact fun same => cut (List.append_cancel_left same)
    · rw [accepted, accepted_of_write wrote, List.append_assoc]
      rfl

end Sink

namespace Token.Writer

variable {w mid next : Writer} {t : Token} {ts front : List Token} {part : Bytes} {e : FrameError}

/-- The writer `next` is `w` after some tokens have gone out whole and then no whole token. -/
structure Broke (w : Writer) (front : List Token) (part : Bytes) (next : Writer) : Prop where
  formed : ∀ t ∈ front, t.Formed w.max
  accepted : next.sink.accepted = w.sink.accepted ++ (front.flatMap Token.bytes ++ part)
  absent : ¬ Token.Stands w.max part

theorem Broke.after {whole : List Token} (broke : mid.Broke front part next)
    (formed : ∀ t ∈ whole, t.Formed w.max) (wrote : w.Wrote (whole.flatMap Token.bytes) mid) :
    w.Broke (whole ++ front) part next where
  formed := List.forall_mem_append.2 ⟨formed, wrote.limit ▸ broke.formed⟩
  accepted := by rw [broke.accepted, wrote.accepted]; simp
  absent := wrote.limit ▸ broke.absent

theorem broke_of_put (formed : t.Formed w.max) (h : w.put t.bytes = (.error e, next)) :
    ∃ part, w.Broke [] part next := by
  unfold put at h
  split at h
  · next sink failed =>
    obtain ⟨-, rfl⟩ := by simpa using h
    obtain ⟨part, front, cut, accepted⟩ := Sink.accepted_of_writeAll_error failed
    exact ⟨part, by simp, by simpa using accepted, not_stands_part formed front cut⟩
  · simp at h

theorem broke_of_writeToken (h : w.writeToken t = (.error e, next)) :
    ∃ part, w.Broke [] part next := by
  cases t with
  | delimiter => exact broke_of_put (t := .delimiter) trivial h
  | record b =>
    simp only [writeToken] at h
    split at h
    · obtain ⟨-, rfl⟩ := by simpa using h
      exact ⟨[], by simp, by simp, not_stands_nil⟩
    · next passed => exact broke_of_put (t := .record b) (Record.check_eq_ok_iff.1 passed) h

/-- Tokens that are not written all are written up to one of them. -/
theorem broke_of_writeTokens (h : w.writeTokens ts = (.error e, next)) :
    ∃ front t back part, ts = front ++ t :: back ∧ w.Broke front part next := by
  induction ts generalizing w with
  | nil => simp [writeTokens] at h
  | cons t ts ih =>
    simp only [writeTokens] at h
    split at h
    · next mid failed =>
      obtain ⟨part, broke⟩ := broke_of_writeToken failed
      obtain ⟨-, rfl⟩ := by simpa using h
      exact ⟨[], t, ts, part, rfl, broke⟩
    · next mid first =>
      obtain ⟨formed, wrote⟩ := wrote_of_writeToken first
      obtain ⟨front, bad, back, part, rfl, broke⟩ := ih h
      refine ⟨t :: front, bad, back, part, rfl, ?_⟩
      have whole : ∀ u ∈ [t], u.Formed w.max := by simpa using formed
      have first : w.Wrote ([t].flatMap Token.bytes) mid := by simpa using wrote
      exact broke.after whole first

end Token.Writer

/-! ### The wire where it breaks off -/

namespace Multiplexer

open Token (Writer)

variable {m next : Multiplexer} {base : Bytes} {w : Wire} {event : Event} {ns : Namespace}

/-- The stream has broken off after the blocks of the wire: whatever has come out of the next
record or delimiter, no record has been added. -/
structure Cut (m : Multiplexer) (base : Bytes) (w : Wire) (shown : Wire) (tail : Bytes) : Prop where
  accepted : m.writer.sink.accepted = base ++ (shown.bytes ++ tail)
  formed : ∀ b ∈ shown.blocks, b.Formed m.writer.max
  absent : ¬ Token.Stands m.writer.max tail
  stage : shown.blocks = w.blocks ∨ ∃ header, shown = w.enter header.record header

/-- A failing event breaks off a record that goes on with the unfinished block, or a new block and
what comes first in it. -/
theorem broke_of_handle {e : FrameError} (failed : m.handle event = (.error e, next)) :
    ∃ front t back part, m.writer.Broke front part next.writer ∧
      ([t] = front ++ t :: back ∨ ∃ (header : CollectionHeader) (last : Token),
        m.leaving ++ [.record header.record, last] = front ++ t :: back) := by
  cases event with
  | record producer bytes =>
    simp only [handle] at failed
    split at failed
    · simp at failed
    · next ns known =>
      split at failed
      · next e writer opening =>
        obtain ⟨-, rfl⟩ := by simpa using failed
        obtain ⟨front, t, back, part, split, broke⟩ := Writer.broke_of_writeTokens opening
        unfold entering at split
        split at split
        · simp at split
        · refine ⟨front, t, back ++ [.record bytes], part, broke, .inr ⟨⟨ns, false⟩, .record bytes, ?_⟩⟩
          simpa using congrArg (· ++ [Token.record bytes]) split
      · next writer opening =>
        obtain ⟨formed, wrote⟩ := Writer.wrote_of_writeTokens opening
        split at failed
        · next e last writing =>
          obtain ⟨-, rfl⟩ := by simpa using failed
          obtain ⟨part, broke⟩ := Writer.broke_of_writeToken writing
          refine ⟨_, .record bytes, [], part, broke.after formed wrote, ?_⟩
          unfold entering
          split
          · exact .inl rfl
          · exact .inr ⟨⟨ns, false⟩, .record bytes, by simp⟩
        · simp at failed
  | closed producer =>
    simp only [handle] at failed
    split at failed
    · simp at failed
    · next ns known =>
      split at failed
      · next e writer ending =>
        obtain ⟨-, rfl⟩ := by simpa using failed
        obtain ⟨front, t, back, part, split, broke⟩ := Writer.broke_of_writeTokens ending
        exact ⟨front, t, back, part, broke, .inr ⟨⟨ns, true⟩, .delimiter, split⟩⟩
      · simp at failed

theorem front_cases {leaving front back : List Token} {lead last t : Token}
    (short : leaving.length ≤ 1) (split : leaving ++ [lead, last] = front ++ t :: back) :
    front = [] ∨ front = leaving ∨ front = leaving ++ [lead] := by
  match leaving, short, front, split with
  | [], _, [], _ => exact .inl rfl
  | [], _, [a], split => simp_all
  | [], _, a :: b :: more, split => simp_all
  | [d], _, [], _ => exact .inl rfl
  | [d], _, [a], split => simp_all
  | [d], _, [a, b], split => simp_all
  | [d], _, a :: b :: c :: more, split => simp_all

theorem bytes_begin (cursor : m.current = w.cursor) (header : CollectionHeader) :
    (w.enter header.record header).bytes =
      w.bytes ++ (m.leaving ++ [Token.record header.record]).flatMap Token.bytes := by
  have left := bytes_terminate cursor
  simp only [Wire.terminate, Wire.bytes, Option.toList_none, List.flatMap_nil,
    List.append_nil] at left
  simp [Wire.enter, Wire.bytes, left, Block.front, Token.bytes]

/-- An event that fails leaves a stream that has broken off, with no record added to the wire. -/
theorem Shows.cut {e : FrameError} (view : m.Shows base w)
    (failed : m.handle event = (.error e, next)) : ∃ shown tail, next.Cut base w shown tail := by
  obtain ⟨front, t, back, part, broke, split⟩ := broke_of_handle failed
  have limit : next.writer.max = m.writer.max := by
    have handled := Multiplexer.handled event m
    rw [failed] at handled
    cases handled with
    | failed known limit clean => exact limit
  have accepted := broke.accepted
  rw [view.accepted, List.append_assoc, ← List.append_assoc w.bytes] at accepted
  have absent := limit ▸ broke.absent
  have short : m.leaving.length ≤ 1 := by
    unfold leaving
    split <;> simp
  have stage : front = [] ∨ front = m.leaving ∨
      ∃ header : CollectionHeader, front = m.leaving ++ [.record header.record] := by
    rcases split with alone | ⟨header, last, split⟩
    · refine .inl ?_
      cases front <;> simp_all
    · rcases front_cases short split with none | left | begun
      · exact .inl none
      · exact .inr (.inl left)
      · exact .inr (.inr ⟨header, begun⟩)
  rcases stage with rfl | rfl | ⟨header, rfl⟩
  · refine ⟨w, part, ?_, ?_, absent, .inl rfl⟩
    · simpa using accepted
    · exact limit ▸ view.formed
  · refine ⟨w.terminate, part, ?_, ?_, absent, .inl w.blocks_terminate⟩
    · rwa [bytes_terminate view.cursor]
    · rw [Wire.blocks_terminate]
      exact limit ▸ view.formed
  · refine ⟨w.enter header.record header, part, ?_, ?_, absent, .inr ⟨header, rfl⟩⟩
    · rwa [bytes_begin view.cursor]
    · have lead : Record.Formed m.writer.max header.record :=
        broke.formed (.record header.record) (by simp)
      rw [limit]
      exact Wire.formed_enter view.formed lead (CollectionHeader.ofRecord?_record lead.length_lt)

theorem Cut.recordsOf {shown : Wire} {tail : Bytes} (cut : m.Cut base w shown tail) (ns : Namespace) :
    Block.recordsOf ns shown.blocks = Block.recordsOf ns w.blocks := by
  rcases cut.stage with same | ⟨header, rfl⟩
  · rw [same]
  · exact Wire.recordsOf_enter ns header.record header w

end Multiplexer
end DumpArchive
