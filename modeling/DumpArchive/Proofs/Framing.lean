import DumpArchive.Proofs.Streams
import Mathlib.Algebra.Group.Nat.Defs

/-! Tokens on a stream without faults. A reader takes exactly the bytes of a well-formed token,
and whatever it takes is one; the writer lets the same tokens through. Limits are below
`2 ^ 63` wherever the signed comparison of the reader matters. -/
namespace DumpArchive

theorem Bytes.toNat_lt (b : Bytes) : b.toNat < capacity b.length := by
  induction b with
  | nil => exact Nat.one_pos
  | cons first rest ih =>
    have small : first.toNat < 256 := first.toNat_lt
    simp only [toNat, List.length_cons, capacity]
    omega

/-- Exactly one record: its own length in the first four bytes, a zero byte at the end, and a
size between the least that can hold them and the limit. -/
structure Record.Formed (max : UInt64) (b : Bytes) : Prop where
  least : Record.minSize ≤ b.length
  most : b.length ≤ max.toNat
  declared : Bytes.toInt (b.take 4) = b.length
  ended : b.getLast? = some 0

namespace Record

variable {max : UInt64} {b : Bytes}

theorem check_eq_ok_iff : check b max = .ok () ↔ Formed max b := by
  constructor
  · intro passed
    simp only [check] at passed
    split at passed
    · contradiction
    · split at passed
      · contradiction
      · split at passed
        · contradiction
        · split at passed
          · contradiction
          · exact ⟨by omega, by omega, by simp_all, by simp_all⟩
  · intro formed
    have least := formed.least
    have most := formed.most
    simp [check, formed.declared, formed.ended, Nat.not_lt.2 least, Nat.not_lt.2 most]

/-- Lengths are signed words. -/
theorem Formed.length_lt (formed : Formed max b) : b.length < 2147483648 := by
  have four : (b.take 4).length = 4 := by
    have := formed.least
    simp only [minSize] at this
    rw [List.length_take]
    omega
  have bound := Bytes.toNat_lt (b.take 4)
  have declared := formed.declared
  simp only [Bytes.toInt, four, Bytes.capacity] at bound declared
  split at declared <;> omega

theorem signedMax_eq (small : max.toNat < 2 ^ 63) : signedMax max = max.toNat := by
  have positive : 2 * max.toBitVec.toNat < 2 ^ 64 := by
    have : max.toBitVec.toNat = max.toNat := rfl
    omega
  exact BitVec.toInt_eq_toNat_of_lt positive

theorem classify_delimiter (max : UInt64) :
    Record.classify Token.delimiterBytes max = .ok .delimiter := rfl

theorem eq_delimiterBytes {four : Bytes} (width : four.length = 4)
    (announced : Record.classify four max = .ok .delimiter) : four = Token.delimiterBytes := by
  have minus : four.toInt = -1 := by
    simp only [Record.classify] at announced
    split at announced
    · assumption
    · split at announced <;> simp at announced
  match four, width with
  | [a, b, c, d], _ =>
    have ha : a.toNat < 256 := a.toNat_lt
    have hb : b.toNat < 256 := b.toNat_lt
    have hc : c.toNat < 256 := c.toNat_lt
    have hd : d.toNat < 256 := d.toNat_lt
    simp only [Bytes.toInt, Bytes.toNat, List.length_cons, List.length_nil, Bytes.capacity] at minus
    have full (x : UInt8) (all : x.toNat = 255) : x = 0xFF := UInt8.toNat_inj.1 all
    split at minus
    · omega
    · rw [full a (by omega), full b (by omega), full c (by omega), full d (by omega)]
      rfl

theorem Formed.classify (formed : Formed max b) (small : max.toNat < 2 ^ 63) :
    Record.classify (b.take 4) max = .ok (.record b.length) := by
  have least := formed.least
  have most := formed.most
  simp only [minSize] at least
  simp only [Record.classify, formed.declared, signedMax_eq small, minSize]
  rw [if_neg (by omega), if_neg (by omega), Int.toNat_natCast]

theorem size_of_classify {four : Bytes} {size : Nat}
    (announced : Record.classify four max = .ok (.record size)) : 4 ≤ size := by
  simp only [Record.classify] at announced
  split at announced
  · simp at announced
  · split at announced
    · contradiction
    · next between =>
      simp only [Except.ok.injEq, Lead.record.injEq] at announced
      simp only [minSize] at between
      omega

theorem formed_of_classify {four body : Bytes} {size : Nat} (width : four.length = 4)
    (announced : Record.classify four max = .ok (.record size)) (small : max.toNat < 2 ^ 63)
    (whole : 4 + body.length = size) (ended : body.getLast? = some 0) :
    Formed max (four ++ body) := by
  simp only [Record.classify, signedMax_eq small] at announced
  split at announced
  · simp at announced
  · split at announced
    · contradiction
    · next between =>
      simp only [Except.ok.injEq, Lead.record.injEq] at announced
      simp only [minSize] at between
      refine ⟨?_, ?_, ?_, ?_⟩
      · simp only [minSize, List.length_append, width]
        omega
      · simp only [List.length_append, width]
        omega
      · simp only [List.take_left' width, List.length_append, width]
        omega
      · rw [List.getLast?_append, ended]
        rfl

end Record

/-- Delimiters have one form; records are checked against the limit. -/
def Token.Formed (max : UInt64) : Token → Prop
  | .delimiter => True
  | .record b => Record.Formed max b

namespace Token.Reader

variable {max : UInt64} {offset : Nat} {r : Reader}

/-- The reader of a stream without faults that has counted `offset` bytes and has `rest` ahead. -/
structure At (r : Reader) (max : UInt64) (offset : Nat) (rest : Bytes) : Prop where
  sound : r.source.schedule.Sound
  limit : r.max = max
  counted : r.offset = offset
  ahead : r.source.pending = rest

theorem at_start {source : Source} (sound : source.schedule.Sound) (max : UInt64) :
    (Reader.start source max).At max 0 source.pending := ⟨sound, rfl, rfl, rfl⟩

theorem At.remaining {rest : Bytes} (place : r.At max offset rest) :
    r.remaining = rest.length := by
  rw [Reader.remaining, place.ahead]

theorem readRaw_at {w : Bytes} (place : r.At max offset w) (n : Nat) :
    ∃ next, r.readRaw n = (.ok (w.take n), next) ∧
      next.At max (offset + (w.take n).length) (w.drop n) := by
  obtain ⟨source, fills, left, same⟩ := Source.fill_sound place.sound n
  refine ⟨⟨source, r.max, r.offset + (w.take n).length⟩, ?_, ?_⟩
  · rw [readRaw, fills, ← place.ahead]
  · exact ⟨same ▸ place.sound, place.limit, by rw [place.counted], by rw [left, place.ahead]⟩

theorem readToken_nil (place : r.At max offset []) :
    ∃ next, r.readToken = (.ok none, next) ∧ next.At max offset [] := by
  obtain ⟨next, raw, after⟩ := readRaw_at place 4
  exact ⟨next, by simp [readToken, readLead, raw], by simpa using after⟩

theorem readLead_append {four rest : Bytes} {lead : Lead} (width : four.length = 4)
    (announced : Record.classify four max = .ok lead) (place : r.At max offset (four ++ rest)) :
    ∃ next, r.readLead = (.ok (some (four, lead)), next) ∧ next.At max (offset + 4) rest := by
  obtain ⟨next, raw, after⟩ := readRaw_at place 4
  rw [List.take_left' width] at raw after
  rw [List.drop_left' width, width] at after
  have something : four ≠ [] := by
    intro nothing
    simp [nothing] at width
  exact ⟨next, by simp [readLead, raw, something, width, place.limit, announced], after⟩

theorem readBody_append {body rest : Bytes} {size : Nat} (start : Nat) (four : Bytes)
    (whole : 4 + body.length = size) (ended : body.getLast? = some 0)
    (place : r.At max offset (body ++ rest)) :
    ∃ next, r.readBody start four size = (.ok (four ++ body), next) ∧
      next.At max (offset + body.length) rest := by
  have width : body.length = size - 4 := by omega
  obtain ⟨next, raw, after⟩ := readRaw_at place (size - 4)
  rw [List.take_left' width] at raw after
  rw [List.drop_left' width] at after
  exact ⟨next, by simp [readBody, raw, whole, ended], after⟩

/-- A well-formed token is read whole, and nothing after it is touched. -/
theorem readToken_append {t : Token} {rest : Bytes} (small : max.toNat < 2 ^ 63)
    (formed : t.Formed max) (place : r.At max offset (t.bytes ++ rest)) :
    ∃ next, r.readToken = (.ok (some t), next) ∧
      next.At max (offset + t.bytes.length) rest := by
  cases t with
  | delimiter =>
    have width : delimiterBytes.length = 4 := rfl
    obtain ⟨next, lead, after⟩ := readLead_append width (Record.classify_delimiter max) place
    exact ⟨next, by simp [readToken, lead], after⟩
  | record b =>
    have formed : Record.Formed max b := formed
    have least := formed.least
    simp only [Record.minSize] at least
    have width : (b.take 4).length = 4 := by
      rw [List.length_take]
      omega
    have whole : 4 + (b.drop 4).length = b.length := by
      rw [List.length_drop]
      omega
    have ended : (b.drop 4).getLast? = some 0 := by
      rw [List.getLast?_drop, formed.ended, if_neg (by omega)]
    have place : r.At max offset (b.take 4 ++ (b.drop 4 ++ rest)) := by
      rwa [← List.append_assoc, List.take_append_drop]
    obtain ⟨mid, lead, between⟩ := readLead_append width (formed.classify small) place
    obtain ⟨next, body, after⟩ := readBody_append r.offset (b.take 4) whole ended between
    refine ⟨next, ?_, ?_⟩
    · simp [readToken, lead, body]
    · rwa [Nat.add_assoc, whole] at after

theorem of_readLead {w four : Bytes} {lead : Lead} {next : Reader} (place : r.At max offset w)
    (h : r.readLead = (.ok (some (four, lead)), next)) :
    four.length = 4 ∧ Record.classify four max = .ok lead ∧
      ∃ rest, w = four ++ rest ∧ next.At max (offset + 4) rest := by
  obtain ⟨mid, raw, after⟩ := readRaw_at place 4
  simp only [readLead, raw, place.limit] at h
  split at h
  · simp at h
  · split at h
    · simp at h
    · next long =>
      have width : (w.take 4).length = 4 := by
        have := List.length_take_le 4 w
        omega
      rw [width] at after
      split at h
      · simp at h
      · next announced =>
        simp only [Prod.mk.injEq, Except.ok.injEq, Option.some.injEq] at h
        obtain ⟨⟨rfl, rfl⟩, rfl⟩ := h
        exact ⟨width, announced, w.drop 4, (List.take_append_drop 4 w).symm, after⟩

theorem of_readBody {w four record : Bytes} {start size : Nat} {next : Reader}
    (place : r.At max offset w) (wide : 4 ≤ size)
    (h : r.readBody start four size = (.ok record, next)) :
    ∃ body rest, record = four ++ body ∧ w = body ++ rest ∧ 4 + body.length = size ∧
      body.getLast? = some 0 ∧ next.At max (offset + body.length) rest := by
  obtain ⟨mid, raw, after⟩ := readRaw_at place (size - 4)
  simp only [readBody, raw] at h
  split at h
  · simp at h
  · next long =>
    split at h
    · simp at h
    · next ended =>
      obtain ⟨rfl, rfl⟩ := by simpa only [Prod.mk.injEq, Except.ok.injEq] using h
      have := List.length_take_le (size - 4) w
      exact ⟨_, _, rfl, (List.take_append_drop (size - 4) w).symm, by omega,
        Decidable.not_not.1 ended, after⟩

/-- Whatever is read as a token is well formed and stood at the front of the input. -/
theorem of_readToken {w : Bytes} {t : Token} {next : Reader} (small : max.toNat < 2 ^ 63)
    (place : r.At max offset w) (h : r.readToken = (.ok (some t), next)) :
    t.Formed max ∧ ∃ rest, w = t.bytes ++ rest ∧ next.At max (offset + t.bytes.length) rest := by
  unfold readToken at h
  split at h
  · simp at h
  · simp at h
  · next four mid lead =>
    obtain ⟨width, announced, rest, split, after⟩ := of_readLead place lead
    obtain ⟨rfl, rfl⟩ := by simpa using h
    obtain rfl := Record.eq_delimiterBytes width announced
    exact ⟨trivial, rest, split, after⟩
  · next four size mid lead =>
    obtain ⟨width, announced, rest, split, between⟩ := of_readLead place lead
    split at h
    · simp at h
    · next record last body =>
      obtain ⟨rfl, rfl⟩ := by simpa using h
      have wide := Record.size_of_classify announced
      obtain ⟨body, after, rfl, rfl, whole, ended, stands⟩ := of_readBody between wide body
      refine ⟨Record.formed_of_classify width announced small whole ended, after, ?_, ?_⟩
      · rw [split]
        exact (List.append_assoc ..).symm
      · simpa [Token.bytes, width, Nat.add_assoc] using stands

/-- Only the end of the input reads as such. -/
theorem nil_of_readToken {w : Bytes} {next : Reader} (place : r.At max offset w)
    (h : r.readToken = (.ok none, next)) : w = [] := by
  obtain ⟨mid, raw, -⟩ := readRaw_at place 4
  have nothing : w.take 4 = [] := by
    by_contra something
    simp only [readToken, readLead, raw, if_neg something] at h
    grind
  rcases List.take_eq_nil_iff.1 nothing with zero | nil
  · contradiction
  · exact nil

end Token.Reader

namespace Token.Writer

variable {w next : Writer} {t : Token} {ts : List Token}

/-- The writer `next` is `w` after `b` has gone out whole. -/
structure Wrote (w : Writer) (b : Bytes) (next : Writer) : Prop where
  accepted : next.sink.accepted = w.sink.accepted ++ b
  limit : next.max = w.max
  alike : w.sink.Alike next.sink

theorem Wrote.refl (w : Writer) : w.Wrote [] w := ⟨by simp, rfl, .refl _⟩

theorem Wrote.trans {a b c : Writer} {front back : Bytes} (first : a.Wrote front b)
    (second : b.Wrote back c) : a.Wrote (front ++ back) c where
  accepted := by rw [second.accepted, first.accepted, List.append_assoc]
  limit := second.limit.trans first.limit
  alike := first.alike.trans second.alike

theorem Wrote.sound {b : Bytes} (wrote : w.Wrote b next) (sound : w.sink.Sound) :
    next.sink.Sound := wrote.alike.sound sound

theorem wrote_of_put {item : Bytes} (h : w.put item = (.ok (), next)) : w.Wrote item next := by
  have alike := Sink.writeAll_alike stuck item w.sink
  unfold put at h
  split at h
  · simp at h
  · next sink whole =>
    obtain rfl := by simpa using h
    exact ⟨Sink.accepted_of_writeAll whole, rfl, by rwa [whole] at alike⟩

theorem put_sound (sound : w.sink.Sound) (item : Bytes) : ∃ next, w.put item = (.ok (), next) := by
  obtain ⟨sink, whole⟩ := Sink.writeAll_sound stuck item w.sink sound
  exact ⟨_, by simp [put, whole]; rfl⟩

theorem wrote_of_writeToken (h : w.writeToken t = (.ok (), next)) :
    t.Formed w.max ∧ w.Wrote t.bytes next := by
  cases t with
  | delimiter => exact ⟨trivial, wrote_of_put h⟩
  | record b =>
    simp only [writeToken] at h
    split at h
    · simp at h
    · next passed => exact ⟨Record.check_eq_ok_iff.1 passed, wrote_of_put h⟩

theorem writeToken_sound (sound : w.sink.Sound) (formed : t.Formed w.max) :
    ∃ next, w.writeToken t = (.ok (), next) := by
  cases t with
  | delimiter => exact put_sound sound _
  | record b =>
    simp only [writeToken, Record.check_eq_ok_iff.2 formed]
    exact put_sound sound b

/-- Without faults only the check of a record can fail, and then nothing was written. -/
theorem of_writeToken_error {e : FrameError} (sound : w.sink.Sound)
    (h : w.writeToken t = (.error e, next)) : ¬ t.Formed w.max ∧ next = w := by
  constructor
  · intro formed
    obtain ⟨other, whole⟩ := writeToken_sound sound formed
    simp [whole] at h
  · cases t with
    | delimiter =>
      obtain ⟨other, whole⟩ := put_sound sound delimiterBytes
      simp [writeToken, whole] at h
    | record b =>
      simp only [writeToken] at h
      split at h
      · exact (Prod.mk.inj h).2.symm
      · obtain ⟨other, whole⟩ := put_sound sound b
        simp [whole] at h

theorem wrote_of_writeTokens (h : w.writeTokens ts = (.ok (), next)) :
    (∀ t ∈ ts, t.Formed w.max) ∧ w.Wrote (ts.flatMap Token.bytes) next := by
  induction ts generalizing w with
  | nil =>
    obtain rfl := by simpa [writeTokens] using h
    exact ⟨by simp, .refl _⟩
  | cons t ts ih =>
    simp only [writeTokens] at h
    split at h
    · simp at h
    · next mid first =>
      obtain ⟨formed, wrote⟩ := wrote_of_writeToken first
      obtain ⟨others, rest⟩ := ih h
      rw [wrote.limit] at others
      exact ⟨List.forall_mem_cons.2 ⟨formed, others⟩, wrote.trans rest⟩

theorem writeTokens_sound (sound : w.sink.Sound) (formed : ∀ t ∈ ts, t.Formed w.max) :
    ∃ next, w.writeTokens ts = (.ok (), next) := by
  induction ts generalizing w with
  | nil => exact ⟨w, rfl⟩
  | cons t ts ih =>
    obtain ⟨first, others⟩ := List.forall_mem_cons.1 formed
    obtain ⟨mid, written⟩ := writeToken_sound sound first
    have wrote := (wrote_of_writeToken written).2
    simp only [writeTokens, written]
    exact ih (wrote.sound sound) (wrote.limit ▸ others)

/-- Without faults the tokens before the first that fails its check are written. -/
theorem of_writeTokens_error {e : FrameError} (sound : w.sink.Sound)
    (h : w.writeTokens ts = (.error e, next)) :
    ∃ front t back, ts = front ++ t :: back ∧ (∀ u ∈ front, u.Formed w.max) ∧
      ¬ t.Formed w.max ∧ w.Wrote (front.flatMap Token.bytes) next := by
  induction ts generalizing w with
  | nil => simp [writeTokens] at h
  | cons t ts ih =>
    simp only [writeTokens] at h
    split at h
    · next mid failed =>
      obtain ⟨bad, rfl⟩ := of_writeToken_error sound failed
      obtain ⟨-, rfl⟩ := Prod.mk.inj h
      exact ⟨[], t, ts, rfl, by simp, bad, .refl _⟩
    · next mid first =>
      obtain ⟨formed, wrote⟩ := wrote_of_writeToken first
      obtain ⟨front, bad, back, rfl, early, unformed, rest⟩ := ih (wrote.sound sound) h
      rw [wrote.limit] at early unformed
      exact ⟨t :: front, bad, back, rfl, List.forall_mem_cons.2 ⟨formed, early⟩, unformed,
        wrote.trans rest⟩

theorem wrote_flush (w : Writer) : w.flush.2.sink.accepted = w.sink.accepted := by
  have same := w.sink.accepted_flushAgain
  unfold flush
  split <;> simp_all

theorem flush_sound (sound : w.sink.Sound) :
    ∃ next, w.flush = (.ok (), next) ∧ next.sink.Sound := by
  obtain ⟨sink, flushed, after⟩ := Sink.flushAgain_sound sound
  exact ⟨{ w with sink }, by simp [flush, flushed], after⟩

theorem max_writeToken (t : Token) (w : Writer) : (w.writeToken t).2.max = w.max := by
  have put (item : Bytes) : (w.put item).2.max = w.max := by
    unfold Writer.put
    split <;> rfl
  cases t with
  | delimiter => exact put delimiterBytes
  | record b =>
    simp only [writeToken]
    split
    · rfl
    · exact put b

theorem max_writeTokens (ts : List Token) (w : Writer) : (w.writeTokens ts).2.max = w.max := by
  induction ts generalizing w with
  | nil => rfl
  | cons t ts ih =>
    have first := max_writeToken t w
    simp only [writeTokens]
    split
    · simp_all
    · next mid written =>
      rw [ih mid]
      simpa [written] using first

theorem max_flush (w : Writer) : w.flush.2.max = w.max := by
  unfold flush
  split <;> rfl

end Token.Writer
end DumpArchive
