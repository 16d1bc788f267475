import DumpArchive.Token.Reader
import DumpArchive.Token.Writer
import Mathlib.Data.List.TakeWhile

/-! Streams without faults. Such a stream may still deliver and take bytes in pieces and
interrupt calls; requests are met in full all the same. What a sink was given whole it has
accepted whole, faults or not. -/
namespace DumpArchive

/-- Never fails, and moves something whenever something is asked for. -/
structure Stream.Schedule.Sound (s : Stream.Schedule) : Prop where
  faultless : s.fault = none
  moving : ∀ call, s.limit call ≠ some 0

theorem Stream.Schedule.sound_steady : Stream.Schedule.steady.Sound :=
  ⟨rfl, fun _ => by simp [Stream.Schedule.steady]⟩

theorem Stream.Schedule.allowance_sound {s : Stream.Schedule} (sound : s.Sound)
    (call position : Nat) : s.allowance call position = .ok (s.limit call) := by
  simp [Stream.Schedule.allowance, sound.faultless]

theorem Stream.Schedule.atMost_pos {s : Stream.Schedule} (sound : s.Sound) (call : Nat)
    {want : Nat} (positive : 0 < want) : 0 < Stream.Schedule.atMost (s.limit call) want := by
  cases bound : s.limit call with
  | none => exact positive
  | some n =>
    have moves : n ≠ 0 := fun zero => sound.moving call (by rw [bound, zero])
    exact Nat.lt_min.2 ⟨Nat.pos_of_ne_zero moves, positive⟩

theorem Stream.Schedule.atMost_le (bound : Option Nat) (want : Nat) :
    Stream.Schedule.atMost bound want ≤ want := by
  cases bound with
  | none => exact Nat.le_refl _
  | some n => exact Nat.min_le_right _ _

namespace Source

/-- An answer is empty only at the end of the input. -/
theorem read_sound {s : Source} (sound : s.schedule.Sound) {want : Nat} (positive : 0 < want) :
    ∃ chunk next, s.read want = (.ok chunk, next) ∧ s.pending = chunk ++ next.pending ∧
      chunk.length ≤ want ∧ (chunk = [] → s.pending = []) ∧ next.schedule = s.schedule := by
  let call := s.schedule.resume (s.calls + 1)
  let n := Stream.Schedule.atMost (s.schedule.limit call) want
  have moves : 0 < n := Stream.Schedule.atMost_pos sound call positive
  have bound : n ≤ want := Stream.Schedule.atMost_le _ _
  let chunk := s.pending.take n
  refine ⟨chunk, ⟨s.schedule, s.pending.drop n, s.position + chunk.length, call⟩,
    ?_, ?_, ?_, ?_, rfl⟩
  · simp only [read, Stream.Schedule.allowance_sound sound]
    rfl
  · exact (List.take_append_drop n s.pending).symm
  · exact Nat.le_trans (List.length_take_le n s.pending) bound
  · intro nothing
    rcases List.take_eq_nil_iff.1 nothing with zero | nil
    · omega
    · exact nil

theorem fillOnto_sound (taken : Bytes) (want : Nat) (s : Source) (sound : s.schedule.Sound) :
    ∃ next, s.fillOnto taken want = (.ok (taken.reverse ++ s.pending.take want), next) ∧
      next.pending = s.pending.drop want ∧ next.schedule = s.schedule := by
  fun_induction fillOnto taken want s with
  | case1 taken s => exact ⟨s, by simp, by simp, rfl⟩
  | case2 taken want s more e next answered =>
    obtain ⟨chunk, mid, reads, -⟩ := read_sound sound (Nat.pos_of_ne_zero more)
    simp [reads] at answered
  | case3 taken want s more next answered =>
    obtain ⟨chunk, mid, reads, -, -, drained, same⟩ := read_sound sound (Nat.pos_of_ne_zero more)
    obtain ⟨rfl, rfl⟩ := by simpa [reads] using answered
    have pending := append_pending_of_read reads
    simp_all
  | case4 taken want s more b chunk next answered ih =>
    obtain ⟨front, mid, reads, split, bound, -, same⟩ :=
      read_sound sound (Nat.pos_of_ne_zero more)
    obtain ⟨rfl, rfl⟩ := by simpa [reads] using answered
    obtain ⟨last, fills, left, unchanged⟩ := ih (same ▸ sound)
    obtain ⟨more, rfl⟩ := Nat.exists_eq_add_of_le bound
    refine ⟨last, ?_, ?_, unchanged.trans same⟩
    · rw [fills, split, List.take_length_add_append]
      simp [List.reverseAux_eq]
    · rw [left, split, List.drop_length_add_append]
      simp

/-- A request is met in full or with all that is left. -/
theorem fill_sound {s : Source} (sound : s.schedule.Sound) (want : Nat) :
    ∃ next, s.fill want = (.ok (s.pending.take want), next) ∧
      next.pending = s.pending.drop want ∧ next.schedule = s.schedule := by
  simpa [fill] using fillOnto_sound [] want s sound

end Source

namespace Sink

/-- Takes everything in the end: no fault, no end of the room, and flushes that are at worst
interrupted. -/
structure Sound (s : Sink) : Prop where
  schedule : s.schedule.Sound
  roomy : s.room = none
  interrupted : ∀ e ∈ s.flushes, e.kind = .interrupted
  flushing : s.flushFault = none

theorem sound_empty : Sink.empty.Sound :=
  ⟨Stream.Schedule.sound_steady, rfl, by simp [empty, fresh], rfl⟩

/-- Takes everything in the end; whether a flush fails is left open. -/
structure Takes (s : Sink) : Prop where
  schedule : s.schedule.Sound
  roomy : s.room = none

theorem Sound.takes {s : Sink} (sound : s.Sound) : s.Takes := ⟨sound.schedule, sound.roomy⟩

/-- What the handling of a sink leaves as it was. -/
structure Alike (s next : Sink) : Prop where
  schedule : next.schedule = s.schedule
  room : next.room = s.room
  flushes : next.flushes = s.flushes
  flushFault : next.flushFault = s.flushFault
  flushedAt : next.flushedAt = s.flushedAt

theorem Alike.refl (s : Sink) : s.Alike s := ⟨rfl, rfl, rfl, rfl, rfl⟩

theorem Alike.trans {a b c : Sink} (first : a.Alike b) (second : b.Alike c) : a.Alike c :=
  ⟨second.schedule.trans first.schedule, second.room.trans first.room,
    second.flushes.trans first.flushes, second.flushFault.trans first.flushFault,
    second.flushedAt.trans first.flushedAt⟩

theorem Alike.sound {s next : Sink} (alike : s.Alike next) (sound : s.Sound) : next.Sound where
  schedule := alike.schedule ▸ sound.schedule
  roomy := alike.room.trans sound.roomy
  interrupted := alike.flushes ▸ sound.interrupted
  flushing := alike.flushFault.trans sound.flushing

theorem Alike.takes {s next : Sink} (alike : s.Alike next) (takes : s.Takes) : next.Takes :=
  ⟨alike.schedule ▸ takes.schedule, alike.room.trans takes.roomy⟩

theorem Alike.flush {s next : Sink} (alike : s.Alike next) : next.flush.1 = s.flush.1 := by
  simp only [Sink.flush, alike.flushes, alike.flushFault]
  repeat' split
  all_goals rfl

theorem write_alike {b : Bytes} {s next : Sink} {result : Except IoError Nat}
    (h : s.write b = (result, next)) : s.Alike next := by
  simp only [write] at h
  split at h
  all_goals
    obtain ⟨-, rfl⟩ := Prod.mk.inj h
    exact ⟨rfl, rfl, rfl, rfl, rfl⟩

/-- A call takes the front of what it is offered, as much as it says. -/
theorem accepted_of_write {b : Bytes} {s next : Sink} {n : Nat} (h : s.write b = (.ok n, next)) :
    next.accepted = s.accepted ++ b.take n := by
  simp only [write] at h
  split at h
  · simp at h
  · split at h
    all_goals
      obtain ⟨taken, rfl⟩ := by simpa only [Prod.mk.injEq, Except.ok.injEq] using h
      rw [accepted_accept, ← taken]
      simp [accepted, List.take_eq_take_iff]

theorem write_takes {s : Sink} (takes : s.Takes) {b : Bytes} (something : b ≠ []) :
    ∃ n next, s.write b = (.ok (n + 1), next) := by
  let call := s.schedule.resume (s.calls + 1)
  have positive : 0 < b.length := List.length_pos_iff.2 something
  have moves := Stream.Schedule.atMost_pos takes.schedule call positive
  simp only [write, Stream.Schedule.allowance_sound takes.schedule, bound, takes.roomy]
  cases limit : s.schedule.limit call with
  | none =>
    obtain ⟨n, size⟩ := Nat.exists_eq_add_of_lt positive
    exact ⟨n, _, by simp [size]; rfl⟩
  | some most =>
    simp only [limit, Stream.Schedule.atMost] at moves
    obtain ⟨n, size⟩ := Nat.exists_eq_add_of_lt moves
    exact ⟨n, _, by simp [size]; rfl⟩

theorem writeAll_alike (stuck : IoError) (b : Bytes) (s : Sink) :
    s.Alike (s.writeAll stuck b).2 := by
  fun_induction writeAll stuck b s with
  | case1 s => exact .refl s
  | case2 s first rest e next wrote => exact write_alike wrote
  | case3 s first rest next wrote => exact write_alike wrote
  | case4 s first rest n next wrote ih => exact (write_alike wrote).trans ih

theorem accepted_of_writeAll {stuck : IoError} {b : Bytes} {s next : Sink}
    (h : s.writeAll stuck b = (.ok (), next)) : next.accepted = s.accepted ++ b := by
  fun_induction writeAll stuck b s with
  | case1 s => simp_all
  | case2 => simp at h
  | case3 => simp at h
  | case4 s first rest n mid wrote ih =>
    rw [ih h, accepted_of_write wrote]
    simp

theorem writeAll_takes (stuck : IoError) (b : Bytes) (s : Sink) (takes : s.Takes) :
    ∃ next, s.writeAll stuck b = (.ok (), next) := by
  fun_induction writeAll stuck b s with
  | case1 s => exact ⟨s, rfl⟩
  | case2 s first rest e next wrote =>
    obtain ⟨n, mid, answers⟩ := write_takes takes (List.cons_ne_nil first rest)
    simp [answers] at wrote
  | case3 s first rest next wrote =>
    obtain ⟨n, mid, answers⟩ := write_takes takes (List.cons_ne_nil first rest)
    simp [answers] at wrote
  | case4 s first rest n next wrote ih => exact ih ((write_alike wrote).takes takes)

theorem writeAll_sound (stuck : IoError) (b : Bytes) (s : Sink) (sound : s.Sound) :
    ∃ next, s.writeAll stuck b = (.ok (), next) := writeAll_takes stuck b s sound.takes

theorem accepted_flush (s : Sink) : s.flush.2.accepted = s.accepted := by
  unfold flush
  repeat' split
  all_goals rfl

/-- A flush that succeeds is recorded together with how much had been accepted. -/
theorem flush_ok {s next : Sink} (h : s.flush = (.ok (), next)) :
    next.accepted = s.accepted ∧ next.flushedAt = s.accepted.length :: s.flushedAt := by
  rw [length_accepted]
  unfold flush at h
  split at h
  · simp at h
  · split at h
    · simp at h
    · obtain ⟨-, rfl⟩ := Prod.mk.inj h
      exact ⟨rfl, rfl⟩

theorem accepted_flushAgain (s : Sink) : s.flushAgain.2.accepted = s.accepted :=
  accepted_flush { s with flushes := s.flushes.dropWhile (·.kind = .interrupted) }

theorem flushAgain_sound {s : Sink} (sound : s.Sound) :
    ∃ next, s.flushAgain = (.ok (), next) ∧ next.Sound := by
  have quiet : s.flushes.dropWhile (·.kind = .interrupted) = [] :=
    List.dropWhile_eq_nil_iff.2 (by simpa using sound.interrupted)
  refine ⟨{ s with flushes := [], flushedAt := s.size :: s.flushedAt }, ?_,
    ⟨sound.schedule, sound.roomy, by simp, sound.flushing⟩⟩
  simp [flushAgain, flush, quiet, sound.flushing]

end Sink
end DumpArchive
