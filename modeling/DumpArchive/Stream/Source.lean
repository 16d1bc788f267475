import DumpArchive.Bytes
import DumpArchive.Stream.Schedule

/-! Input streams. `read` is one answered call; `fill` repeats it until the request is met. -/
namespace DumpArchive

structure Source where
  schedule : Stream.Schedule
  pending : Bytes
  position : Nat
  calls : Nat

namespace Source

/-- A stream over some bytes, none of them delivered yet. -/
def scheduled (schedule : Stream.Schedule) (content : Bytes) : Source := ⟨schedule, content, 0, 0⟩

def ofBytes (content : Bytes) : Source := scheduled .steady content

/-- The first call that is not interrupted. It delivers no more than is left. -/
def read (want : Nat) (s : Source) : Except IoError Bytes × Source :=
  let call := s.schedule.resume (s.calls + 1)
  match s.schedule.allowance call s.position with
  | .error e => (.error e, { s with calls := call })
  | .ok bound =>
    let n := Stream.Schedule.atMost bound want
    let chunk := s.pending.take n
    (.ok chunk, { s with
      pending := s.pending.drop n
      position := s.position + chunk.length
      calls := call })

/-- Asks each time for all that is still missing and stops at an empty answer. The bytes of
earlier calls are held newest first. -/
def fillOnto (taken : Bytes) (want : Nat) (s : Source) : Except IoError Bytes × Source :=
  if want = 0 then (.ok taken.reverse, s)
  else match s.read want with
    | (.error e, s) => (.error e, s)
    | (.ok [], s) => (.ok taken.reverse, s)
    | (.ok (b :: chunk), s) =>
      fillOnto (chunk.reverseAux (b :: taken)) (want - (chunk.length + 1)) s
termination_by want

/-- Short only at the end of the input. -/
def fill (want : Nat) (s : Source) : Except IoError Bytes × Source := s.fillOnto [] want

theorem append_pending_of_read {want : Nat} {s next : Source} {chunk : Bytes}
    (h : s.read want = (.ok chunk, next)) : chunk ++ next.pending = s.pending := by
  simp only [read] at h
  split at h
  · simp at h
  · simp only [Prod.mk.injEq, Except.ok.injEq] at h
    obtain ⟨rfl, rfl⟩ := h
    simp

theorem append_pending_of_fillOnto {taken : Bytes} {want : Nat} {s next : Source} {data : Bytes}
    (h : s.fillOnto taken want = (.ok data, next)) :
    data ++ next.pending = taken.reverse ++ s.pending := by
  fun_induction fillOnto taken want s with
  | case1 => simp_all
  | case2 => simp at h
  | case3 taken want s _ mid answered =>
    obtain ⟨rfl, rfl⟩ := by simpa using h
    simp [← append_pending_of_read answered]
  | case4 taken want s _ b chunk mid answered ih =>
    rw [ih h, ← append_pending_of_read answered]
    simp [List.reverseAux_eq]

/-- What a request delivers is taken from the front of what was pending. -/
theorem append_pending_of_fill {want : Nat} {s next : Source} {data : Bytes}
    (h : s.fill want = (.ok data, next)) : data ++ next.pending = s.pending := by
  simpa using append_pending_of_fillOnto h

theorem pending_read_le (want : Nat) (s : Source) :
    (s.read want).2.pending.length ≤ s.pending.length := by
  simp only [read]
  split <;> simp

theorem pending_fillOnto_le (taken : Bytes) (want : Nat) (s : Source) :
    (s.fillOnto taken want).2.pending.length ≤ s.pending.length := by
  fun_induction fillOnto taken want s with
  | case1 => simp
  | case2 _ want s _ e mid answered => simpa [answered] using pending_read_le want s
  | case3 _ want s _ mid answered => simpa [answered] using pending_read_le want s
  | case4 _ want s _ b chunk mid answered ih =>
    exact Nat.le_trans ih (by simpa [answered] using pending_read_le want s)

/-- A request gives no bytes back, whether it is met or not. -/
theorem pending_fill_le (want : Nat) (s : Source) :
    (s.fill want).2.pending.length ≤ s.pending.length :=
  pending_fillOnto_le [] want s

end Source
end DumpArchive
