import DumpArchive.Proofs.Decoding
import DumpArchive.Proofs.Positions

/-! Tokens and their bytes. Asking for token after token takes the bytes of well-formed tokens apart
again, each request exactly those of its token, and comes to the end of nothing else. The check of
the writer and the reader agree for every limit that fits a signed word, and for no other. -/
namespace DumpArchive

/-- The bytes are those of the tokens, and every record passes the check for its limit. -/
structure Token.Spells (max : UInt64) (tokens : List Token) (w : Bytes) : Prop where
  checked : ∀ b, .record b ∈ tokens → Record.check b max = .ok ()
  split : w = tokens.flatMap Token.bytes

namespace Token

variable {max : UInt64} {t : Token} {tokens : List Token} {w : Bytes}

theorem formed_iff_checked :
    (∀ t ∈ tokens, t.Formed max) ↔ ∀ b, .record b ∈ tokens → Record.check b max = .ok () := by
  constructor
  · intro formed b member
    exact Record.check_eq_ok_iff.2 (formed (.record b) member)
  · intro checked t member
    cases t with
    | delimiter => trivial
    | record b => exact Record.check_eq_ok_iff.1 (checked b member)

theorem Spells.formed (spells : Spells max tokens w) : ∀ t ∈ tokens, t.Formed max :=
  formed_iff_checked.2 spells.checked

namespace Reader

variable {offset : Nat} {r last : Reader} {taken all : List Token}

/-- The reader after `k` requests for a token. -/
def after : Nat → Reader → Reader
  | 0, r => r
  | k + 1, r => r.readToken.2.after k

/-- What was still asked for at the end is answered by the end. -/
theorem after_nil (place : r.At max offset []) (k : Nat) :
    (r.after k).At max offset [] ∧ r.Balanced (r.after k) := by
  induction k generalizing r with
  | zero => exact ⟨place, rfl, rfl⟩
  | succ k ih =>
    obtain ⟨next, read, ends⟩ := readToken_nil place
    obtain ⟨stays, balanced⟩ := ih ends
    rw [after, read]
    exact ⟨stays, (balanced_of_readToken read).trans balanced⟩

/-- A request takes the bytes of one token and no byte of the next. -/
theorem after_spelled (small : max.toNat < 2 ^ 63) (formed : ∀ t ∈ tokens, t.Formed max)
    (place : r.At max offset (tokens.flatMap Token.bytes)) (k : Nat) :
    (r.after k).At max (offset + ((tokens.take k).flatMap Token.bytes).length)
      ((tokens.drop k).flatMap Token.bytes) ∧ r.Balanced (r.after k) := by
  induction k generalizing r tokens offset with
  | zero => exact ⟨by simpa [after] using place, rfl, rfl⟩
  | succ k ih =>
    cases tokens with
    | nil => simpa using after_nil place (k + 1)
    | cons t tokens =>
      obtain ⟨first, others⟩ := List.forall_mem_cons.1 formed
      obtain ⟨next, read, later⟩ := readToken_append small first place
      obtain ⟨stands, balanced⟩ := ih others later
      rw [after, read]
      refine ⟨?_, (balanced_of_readToken read).trans balanced⟩
      simpa [Nat.add_assoc] using stands

theorem readToken_spelled (small : max.toNat < 2 ^ 63) (formed : ∀ t ∈ tokens, t.Formed max)
    (place : r.At max offset (tokens.flatMap Token.bytes)) :
    r.readToken.1 = .ok tokens.head? := by
  cases tokens with
  | nil =>
    obtain ⟨next, read, -⟩ := readToken_nil place
    rw [read]
    rfl
  | cons t tokens =>
    obtain ⟨next, read, -⟩ := readToken_append small (List.forall_mem_cons.1 formed).1 place
    rw [read]
    rfl

/-- A limit that fits no signed word admits delimiters all the same. -/
theorem readToken_fitting {rest : Bytes} (fits : max.toNat < 2 ^ 63 ∨ t = .delimiter)
    (formed : t.Formed max) (place : r.At max offset (t.bytes ++ rest)) :
    ∃ next, r.readToken = (.ok (some t), next) ∧ next.At max (offset + t.bytes.length) rest := by
  rcases fits with small | rfl
  · exact readToken_append small formed place
  · obtain ⟨next, lead, later⟩ :=
      readLead_append rfl (Record.classify_delimiter max) place
    exact ⟨next, by simp [readToken, lead], later⟩

theorem readAllOnto_spelled (taken : List Token)
    (fits : max.toNat < 2 ^ 63 ∨ ∀ t ∈ tokens, t = .delimiter)
    (formed : ∀ t ∈ tokens, t.Formed max) (place : r.At max offset (tokens.flatMap Token.bytes)) :
    ∃ last, r.readAllOnto taken = (taken.reverse ++ tokens, none, last) := by
  induction tokens generalizing r offset taken with
  | nil =>
    obtain ⟨next, read, -⟩ := readToken_nil place
    rw [readAllOnto]
    split
    all_goals simp_all
  | cons t tokens ih =>
    obtain ⟨first, others⟩ := List.forall_mem_cons.1 formed
    have here : max.toNat < 2 ^ 63 ∨ t = .delimiter := fits.imp_right (· t (List.mem_cons_self ..))
    have there : max.toNat < 2 ^ 63 ∨ ∀ u ∈ tokens, u = .delimiter :=
      fits.imp_right fun all u member => all u (List.mem_cons_of_mem _ member)
    obtain ⟨next, read, later⟩ := readToken_fitting here first place
    obtain ⟨last, ends⟩ := ih (t :: taken) there others later
    refine ⟨last, ?_⟩
    rw [readAllOnto]
    split
    all_goals simp_all

theorem of_readAllOnto (small : max.toNat < 2 ^ 63) (place : r.At max offset w)
    (h : r.readAllOnto taken = (all, none, last)) :
    ∃ tokens, all = taken.reverse ++ tokens ∧ (∀ t ∈ tokens, t.Formed max) ∧
      w = tokens.flatMap Token.bytes := by
  fun_induction readAllOnto taken r generalizing offset w with
  | case1 => simp at h
  | case2 taken r next read =>
    obtain ⟨rfl, -⟩ := by simpa using h
    exact ⟨[], by simp, by simp, nil_of_readToken place read⟩
  | case3 taken r t next read ih =>
    obtain ⟨formed, rest, rfl, later⟩ := of_readToken small place read
    obtain ⟨tokens, rfl, others, rfl⟩ := ih later h
    exact ⟨t :: tokens, by simp, List.forall_mem_cons.2 ⟨formed, others⟩, by simp⟩

/-- Reading to the end answers some tokens just if the input spells them. -/
theorem readAll_iff (small : max.toNat < 2 ^ 63) (place : r.At max offset w) :
    (∃ last, r.readAll = (tokens, none, last)) ↔ Spells max tokens w := by
  constructor
  · rintro ⟨last, read⟩
    obtain ⟨others, rfl, formed, split⟩ := of_readAllOnto small place read
    exact ⟨formed_iff_checked.1 formed, split⟩
  · intro spells
    obtain ⟨last, read⟩ := readAllOnto_spelled [] (.inl small) spells.formed
      (spells.split ▸ place)
    exact ⟨last, by simpa [readAll] using read⟩

/-- Token after token is read off an input to a clean end just if the input is the bytes of those
tokens, each record passing its check. The request number `k` is then answered by token number
`k`, and every request behind the last token by the end; before it the reader has counted, and its
stream has delivered, the bytes of the tokens before and no other. -/
theorem readAll_spells (schedule : Stream.Schedule) (sound : schedule.Sound) (max : UInt64)
    (small : max.toNat < 2 ^ 63) (w : Bytes) (tokens : List Token) :
    let r := Reader.start (.scheduled schedule w) max
    ((∃ last, r.readAll = (tokens, none, last)) ↔ Spells max tokens w) ∧
    (Spells max tokens w → ∀ k,
      (r.after k).readToken.1 = .ok tokens[k]? ∧
      (r.after k).offset = ((tokens.take k).flatMap Token.bytes).length ∧
      (r.after k).source.position = ((tokens.take k).flatMap Token.bytes).length ∧
      (r.after k).source.pending = (tokens.drop k).flatMap Token.bytes) := by
  intro r
  have start : r.At max 0 w := at_start sound max
  refine ⟨readAll_iff small start, fun spells k => ?_⟩
  obtain ⟨stands, balanced⟩ := after_spelled small spells.formed (spells.split ▸ start) k
  have rest : ∀ t ∈ tokens.drop k, t.Formed max :=
    fun t member => spells.formed t (List.mem_of_mem_drop member)
  have whole : r.At max 0 ((tokens.take k).flatMap Token.bytes ++
      (tokens.drop k).flatMap Token.bytes) := by
    rw [← List.flatMap_append, List.take_append_drop]
    exact spells.split ▸ start
  refine ⟨?_, ?_, ?_, stands.ahead⟩
  · rw [readToken_spelled small rest stands, List.head?_drop]
  · simpa using stands.counted
  · simpa [r, Reader.start, Source.scheduled] using balanced.position whole stands

/-- A record and a delimiter that arrive byte by byte. -/
theorem readAll_spells_block :
    let schedule := Stream.Schedule.periodic 2 (by decide) (some 1) none
    let r := Reader.start (.scheduled schedule [5, 0, 0, 0, 0, 255, 255, 255, 255]) 5
    schedule.Sound ∧ (5 : UInt64).toNat < 2 ^ 63 ∧
      (∃ last, r.readAll = ([.record [5, 0, 0, 0, 0], .delimiter], none, last)) ∧
      (r.after 1).offset = 5 := by
  intro schedule r
  have sound : schedule.Sound := ⟨rfl, fun call => by simp [schedule, Stream.Schedule.periodic]⟩
  have small : (5 : UInt64).toNat < 2 ^ 63 := by decide
  have spells : Spells 5 [.record [5, 0, 0, 0, 0], .delimiter]
      [5, 0, 0, 0, 0, 255, 255, 255, 255] := ⟨by simp; decide, rfl⟩
  obtain ⟨whole, each⟩ := readAll_spells schedule sound 5 small _ _
  exact ⟨sound, small, whole.2 spells, (each spells 1).2.1⟩

/-! ### The check and the reader -/

theorem max_readRaw (n : Nat) (r : Reader) : (r.readRaw n).2.max = r.max := by
  unfold readRaw
  split <;> rfl

theorem max_readLead (r : Reader) : r.readLead.2.max = r.max := by
  have raw := max_readRaw 4 r
  unfold readLead
  repeat' split
  all_goals simp_all

theorem max_readBody (start size : Nat) (four : Bytes) (r : Reader) :
    (r.readBody start four size).2.max = r.max := by
  have raw := max_readRaw (size - 4) r
  simp only [readBody]
  repeat' split
  all_goals simp_all

theorem max_readToken (r : Reader) : r.readToken.2.max = r.max := by
  have lead := max_readLead r
  unfold readToken
  split
  · simp_all
  · simp_all
  · simp_all
  · next four size mid found =>
    have body := max_readBody r.offset size four mid
    split <;> simp_all

/-- No record is read under a limit that fits no signed word. -/
theorem small_of_readAllOnto {b : Bytes} (h : r.readAllOnto taken = (all, none, last))
    (read : .record b ∈ all) (fresh : .record b ∉ taken) : r.max.toNat < 2 ^ 63 := by
  fun_induction readAllOnto taken r with
  | case1 => simp at h
  | case2 taken r next ended =>
    obtain ⟨rfl, -⟩ := by simpa using h
    exact absurd (List.mem_reverse.1 read) fresh
  | case3 taken r t next found ih =>
    by_contra large
    have same : next.max = r.max := by simpa [found] using max_readToken r
    have other : Token.record b ≠ t := by
      rintro rfl
      exact readToken_large (Nat.not_lt.1 large) found
    exact large (same ▸ ih h (by simp [other, fresh]))

/-- Some bytes are read as one record, up to the last of them, just if they pass the check of a
writer under the same limit and the limit fits a signed word. So what a writer has put out is read
back under its limit if that fits a signed word, and otherwise only if no record is among it. -/
theorem reads_back_iff (schedule : Stream.Schedule) (sound : schedule.Sound) :
    (∀ (b : Bytes) (max : UInt64),
      (∃ next,
        (Reader.start (.scheduled schedule b) max).readToken = (.ok (some (.record b)), next) ∧
          next.offset = b.length ∧ next.source.pending = []) ↔
      Record.check b max = .ok () ∧ max.toNat < 2 ^ 63) ∧
    ∀ (w next : Writer) (tokens : List Token), w.writeTokens tokens = (.ok (), next) →
      ∃ out, next.sink.accepted = w.sink.accepted ++ out ∧
        ((∃ last, (Reader.start (.scheduled schedule out) w.max).readAll = (tokens, none, last)) ↔
          w.max.toNat < 2 ^ 63 ∨ ∀ t ∈ tokens, t = .delimiter) := by
  have start (b : Bytes) (max : UInt64) : (Reader.start (.scheduled schedule b) max).At max 0 b :=
    at_start sound max
  refine ⟨fun b max => ⟨?_, ?_⟩, fun w next tokens written => ?_⟩
  · rintro ⟨next, read, -⟩
    have small : max.toNat < 2 ^ 63 := by
      by_contra large
      exact readToken_large (r := .start (.scheduled schedule b) max) (Nat.not_lt.1 large) read
    obtain ⟨formed, -⟩ := of_readToken small (start b max) read
    exact ⟨Record.check_eq_ok_iff.2 formed, small⟩
  · rintro ⟨checked, small⟩
    have formed : (Token.record b).Formed max := Record.check_eq_ok_iff.1 checked
    have place : (Reader.start (.scheduled schedule b) max).At max 0
        ((Token.record b).bytes ++ []) := by simpa [Token.bytes] using start b max
    obtain ⟨next, read, later⟩ := readToken_append small formed place
    exact ⟨next, read, by simpa [Token.bytes] using later.counted, later.ahead⟩
  · obtain ⟨formed, wrote⟩ := Writer.wrote_of_writeTokens written
    refine ⟨_, wrote.accepted, ?_, fun fits => ?_⟩
    · rintro ⟨last, read⟩
      refine or_iff_not_imp_right.2 fun record => ?_
      obtain ⟨t, member, other⟩ : ∃ t ∈ tokens, t ≠ .delimiter := by simpa using record
      cases t with
      | delimiter => exact absurd rfl other
      | record b => exact small_of_readAllOnto read member (List.not_mem_nil)
    · obtain ⟨last, read⟩ := readAllOnto_spelled [] fits formed (start _ w.max)
      exact ⟨last, by simpa [readAll] using read⟩

/-- The least record under the greatest limit that admits it. -/
theorem reads_back_greatest :
    let max : UInt64 := 0x7FFFFFFFFFFFFFFF
    let w := Writer.start .empty max
    let tokens : List Token := [.record [5, 0, 0, 0, 0], .delimiter]
    Stream.Schedule.steady.Sound ∧
      (∃ next, (Reader.start (.scheduled .steady [5, 0, 0, 0, 0]) max).readToken =
        (.ok (some (.record [5, 0, 0, 0, 0])), next)) ∧
      ∃ out last, (w.writeTokens tokens).1 = .ok () ∧
        (w.writeTokens tokens).2.sink.accepted = w.sink.accepted ++ out ∧
        (Reader.start (.scheduled .steady out) max).readAll = (tokens, none, last) := by
  intro max w tokens
  have sound := Stream.Schedule.sound_steady
  have small : max.toNat < 2 ^ 63 := by decide
  have checked : Record.check [5, 0, 0, 0, 0] max = .ok () := by decide
  have answer : (w.writeTokens tokens).1 = .ok () := by cbv
  have written : w.writeTokens tokens = (.ok (), (w.writeTokens tokens).2) := Prod.ext answer rfl
  obtain ⟨alone, back⟩ := reads_back_iff .steady sound
  obtain ⟨next, read, -⟩ := (alone [5, 0, 0, 0, 0] max).2 ⟨checked, small⟩
  obtain ⟨out, accepted, whole⟩ := back w _ tokens written
  obtain ⟨last, all⟩ := whole.2 (.inl small)
  exact ⟨sound, ⟨next, read⟩, out, last, answer, accepted, all⟩

/-- Under the next limit a writer still lets the record through, and a reader refuses it. -/
theorem refused_beyond_greatest :
    Record.check [5, 0, 0, 0, 0] 0x8000000000000000 = .ok () ∧
      (Reader.start (.ofBytes [5, 0, 0, 0, 0]) 0x8000000000000000).readToken.1 =
        .error (.corrupt 0 (.badLength 5)) := by
  refine ⟨by decide, ?_⟩
  cbv

end Reader
end Token
end DumpArchive
