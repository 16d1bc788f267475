import DumpArchive.Proofs.Catalogs

/-! Positions. What a stream has delivered and what it holds back add up, and a reader that
answers has counted exactly what it took. So whoever knows what is ahead knows the offset. -/
namespace DumpArchive

namespace Source

/-- The position at which all has been delivered. -/
def extent (s : Source) : Nat := s.position + s.pending.length

theorem extent_read (want : Nat) (s : Source) : (s.read want).2.extent = s.extent := by
  simp only [read]
  split
  · rfl
  · simp only [extent, List.length_take, List.length_drop]
    omega

theorem extent_fillOnto (taken : Bytes) (want : Nat) (s : Source) :
    (s.fillOnto taken want).2.extent = s.extent := by
  fun_induction fillOnto taken want s with
  | case1 => rfl
  | case2 taken want s more e next answered => simpa [answered] using extent_read want s
  | case3 taken want s more next answered => simpa [answered] using extent_read want s
  | case4 taken want s more b chunk next answered ih =>
    rw [ih]
    simpa [answered] using extent_read want s

theorem extent_fill (want : Nat) (s : Source) : (s.fill want).2.extent = s.extent :=
  extent_fillOnto [] want s

end Source

namespace Token.Reader

variable {r mid next : Reader} {max : UInt64} {offset : Nat} {front rest : Bytes}

/-- The reader has counted, and its stream has delivered, what is no longer ahead. -/
structure Balanced (r next : Reader) : Prop where
  counted : next.offset + next.remaining = r.offset + r.remaining
  placed : next.source.extent = r.source.extent

theorem Balanced.trans (first : r.Balanced mid) (second : mid.Balanced next) :
    r.Balanced next :=
  ⟨second.counted.trans first.counted, second.placed.trans first.placed⟩

/-- The offset of a reader that got from before some bytes to right behind them. -/
theorem Balanced.stands (balanced : r.Balanced next) (start : r.At max offset (front ++ rest))
    (ends : ∃ offset, next.At max offset rest) : next.At max (offset + front.length) rest := by
  obtain ⟨last, ends⟩ := ends
  have counted := balanced.counted
  rw [start.counted, ends.counted, start.remaining, ends.remaining, List.length_append] at counted
  obtain rfl : last = offset + front.length := by omega
  exact ends

theorem Balanced.position (balanced : r.Balanced next) (start : r.At max offset (front ++ rest))
    (ends : next.At max (offset + front.length) rest) :
    next.source.position = r.source.position + front.length := by
  have placed := balanced.placed
  simp only [Source.extent, start.ahead, ends.ahead, List.length_append] at placed
  omega

theorem balanced_of_readRaw {n : Nat} {data : Bytes} (h : r.readRaw n = (.ok data, next)) :
    r.Balanced next := by
  have taken := length_of_readRaw h
  have placed := r.source.extent_fill n
  unfold readRaw at h
  split at h
  · simp at h
  · next filled =>
    obtain ⟨rfl, rfl⟩ := by simpa using h
    exact ⟨by simp only; omega, by simpa [filled] using placed⟩

theorem balanced_of_readLead {lead : Option (Bytes × Lead)} (h : r.readLead = (.ok lead, next)) :
    r.Balanced next := by
  unfold readLead at h
  split at h
  · simp at h
  · next four mid raw =>
    have balanced := balanced_of_readRaw raw
    repeat' split at h
    all_goals simp at h
    all_goals
      obtain ⟨-, rfl⟩ := h
      exact balanced

theorem balanced_of_readBody {start size : Nat} {four record : Bytes}
    (h : r.readBody start four size = (.ok record, next)) : r.Balanced next := by
  simp only [readBody] at h
  split at h
  · simp at h
  · next raw =>
    have balanced := balanced_of_readRaw raw
    repeat' split at h
    all_goals simp at h
    obtain ⟨-, rfl⟩ := h
    exact balanced

theorem balanced_of_readToken {t : Option Token} (h : r.readToken = (.ok t, next)) :
    r.Balanced next := by
  unfold readToken at h
  split at h
  · simp at h
  · next lead =>
    obtain ⟨-, rfl⟩ := by simpa using h
    exact balanced_of_readLead lead
  · next lead =>
    obtain ⟨-, rfl⟩ := by simpa using h
    exact balanced_of_readLead lead
  · next lead =>
    have first := balanced_of_readLead lead
    split at h
    · simp at h
    · next body =>
      obtain ⟨-, rfl⟩ := by simpa using h
      exact first.trans (balanced_of_readBody body)

end Token.Reader

namespace Block

open Token (Reader)

variable {r next : Reader} {place : Place} {σ : Type} {handler : Handler σ} {state after : σ}

theorem balanced_of_nextPart {part : Part} (h : nextPart place r = (.ok part, next)) :
    r.Balanced next := by
  unfold nextPart at h
  split at h
  all_goals first
    | (simp at h; done)
    | (simp only [Prod.mk.injEq, Except.ok.injEq] at h
       obtain ⟨-, rfl⟩ := h
       exact Reader.balanced_of_readToken ‹_›)

theorem balanced_of_traverse {whole : Bool} {status : Status}
    (h : traverse whole handler place state r = (.ok status, after, next)) : r.Balanced next := by
  fun_induction traverse whole handler place state r with
  | case1 => simp at h
  | case2 => simp at h
  | case3 place state r offset record mid found state answered ih =>
    exact (balanced_of_nextPart found).trans (ih h)
  | case4 => simp at h
  | case5 place state r offset record mid found state answered ih =>
    exact (balanced_of_nextPart found).trans (ih h)
  | case6 place state r mid found whole ih =>
    exact (balanced_of_nextPart found).trans (ih h)
  | case7 place state r mid found =>
    obtain ⟨-, -, rfl⟩ := by simpa using h
    exact balanced_of_nextPart found
  | case8 => simp at h
  | case9 place state r offset mid found state answered =>
    obtain ⟨-, -, rfl⟩ := by simpa using h
    exact balanced_of_nextPart found

end Block

theorem Catalog.balanced_of_read {c : Catalog} {r next : Token.Reader}
    (h : Catalog.read r = (.ok c, next)) : r.Balanced next := by
  unfold Catalog.read at h
  split at h
  · simp at h
  · next four mid raw =>
    have first := Token.Reader.balanced_of_readRaw raw
    split at h
    · simp at h
    · split at h
      · simp at h
      · split at h
        · simp at h
        · next header entries last drafted =>
          have second := Block.balanced_of_traverse drafted
          split at h
          · simp at h
          · obtain ⟨-, rfl⟩ := by simpa using h
            exact first.trans second
        · simp at h

end DumpArchive
