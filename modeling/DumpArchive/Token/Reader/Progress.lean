import DumpArchive.Token.Reader

/-! Reading makes progress: a token takes bytes from the stream and none come back, so a stream
has finitely many tokens. -/
namespace DumpArchive.Token.Reader

theorem length_of_readRaw {n : Nat} {r next : Reader} {data : Bytes}
    (h : r.readRaw n = (.ok data, next)) : data.length + next.remaining = r.remaining := by
  unfold readRaw at h
  split at h
  · simp at h
  · next filled =>
    obtain ⟨rfl, rfl⟩ := by simpa using h
    simp [remaining, ← Source.append_pending_of_fill filled]

theorem remaining_of_readLead {r next : Reader} {lead : Bytes × Lead}
    (h : r.readLead = (.ok (some lead), next)) : next.remaining < r.remaining := by
  unfold readLead at h
  split at h
  · simp at h
  · next four mid raw =>
    have taken := length_of_readRaw raw
    repeat' split at h
    all_goals simp at h
    obtain ⟨-, rfl⟩ := h
    omega

theorem remaining_of_readBody {start size : Nat} {four record : Bytes} {r next : Reader}
    (h : r.readBody start four size = (.ok record, next)) : next.remaining ≤ r.remaining := by
  simp only [readBody] at h
  split at h
  · simp at h
  · next raw =>
    have taken := length_of_readRaw raw
    repeat' split at h
    all_goals simp at h
    obtain ⟨-, rfl⟩ := h
    omega

/-- A token takes at least one byte from the stream. -/
theorem remaining_of_readToken {r next : Reader} {t : Token}
    (h : r.readToken = (.ok (some t), next)) : next.remaining < r.remaining := by
  unfold readToken at h
  split at h
  · simp at h
  · simp at h
  · next lead =>
    obtain ⟨-, rfl⟩ := by simpa using h
    exact remaining_of_readLead lead
  · next lead =>
    have less := remaining_of_readLead lead
    split at h
    · simp at h
    · next body =>
      obtain ⟨-, rfl⟩ := by simpa using h
      exact Nat.lt_of_le_of_lt (remaining_of_readBody body) less

theorem remaining_readRaw_le (n : Nat) (r : Reader) :
    (r.readRaw n).2.remaining ≤ r.remaining := by
  have filled := r.source.pending_fill_le n
  unfold readRaw
  split <;> simp_all [remaining]

theorem remaining_readLead_le (r : Reader) : r.readLead.2.remaining ≤ r.remaining := by
  have raw := remaining_readRaw_le 4 r
  unfold readLead
  split
  · simp_all
  · repeat' split
    all_goals simp_all

theorem remaining_readBody_le (start size : Nat) (four : Bytes) (r : Reader) :
    (r.readBody start four size).2.remaining ≤ r.remaining := by
  have raw := remaining_readRaw_le (size - 4) r
  simp only [readBody]
  split
  · simp_all
  · repeat' split
    all_goals simp_all

theorem remaining_readToken_le (r : Reader) : r.readToken.2.remaining ≤ r.remaining := by
  have lead := remaining_readLead_le r
  unfold readToken
  split
  · simp_all
  · simp_all
  · simp_all
  · next four size mid found =>
    have body := remaining_readBody_le r.offset size four mid
    have le : mid.remaining ≤ r.remaining := by simpa [found] using lead
    split <;> simp_all <;> omega

/-- Tokens until the input ends or one cannot be read, after those in `taken`, newest first. -/
def readAllOnto (taken : List Token) (r : Reader) : List Token × Option FrameError × Reader :=
  match _found : r.readToken with
  | (.error e, next) => (taken.reverse, some e, next)
  | (.ok none, next) => (taken.reverse, none, next)
  | (.ok (some t), next) => readAllOnto (t :: taken) next
termination_by r.remaining
decreasing_by exact remaining_of_readToken _found

/-- All tokens up to the end of the input or the first error. -/
def readAll (r : Reader) : List Token × Option FrameError × Reader := r.readAllOnto []

end DumpArchive.Token.Reader
