import DumpArchive.Proofs.Faults
import DumpArchive.Proofs.Sources

/-! Sinks byte by byte. Where a sink takes something whenever it can, an error stands at a position
of its stream and not at a call: how the bytes before it are cut into writes, and which calls are
interrupted, makes no difference to what goes out. -/
namespace DumpArchive

namespace Stream.Schedule

/-- A call that does not fail may move something, and nothing that it may move is behind the
fault. -/
theorem clear_of_allowance {s : Schedule} (moving : s.Moving) {call position want : Nat}
    {most : Option Nat} (positive : 0 < want) (h : s.allowance call position = .ok most) :
    0 < atMost most want ∧
      ∀ k < atMost most want, ∀ place e, s.fault = some (place, e) → position + k < place := by
  refine ⟨(of_allowance moving positive h).1, fun k less place e fault => ?_⟩
  simp only [allowance, fault] at h
  split at h
  · contradiction
  · next before =>
    obtain rfl := Except.ok.inj h
    have left : atMost (some (atMost (s.limit call) (place - position))) want ≤
        place - position := Nat.le_trans (Nat.min_le_left ..) (atMost_le ..)
    omega

end Stream.Schedule

namespace Sink

open Stream.Schedule (atMost atMost_le)

variable {s t : Sink} {stuck : IoError} {b : Bytes}

/-- The error at a position behind the room, if it is one. -/
def full (stuck : IoError) (s : Sink) (position : Nat) : Option IoError :=
  match s.room with
  | some room => if room ≤ position then some stuck else none
  | none => none

/-- The error that a write meets at a position: the fault of the stream or the end of the room. -/
def obstacle (stuck : IoError) (s : Sink) (position : Nat) : Option IoError :=
  match s.schedule.fault with
  | some (place, e) => if place ≤ position then some e else s.full stuck position
  | none => s.full stuck position

/-- Bytes that are put out one by one, from a position on, up to the first obstacle. -/
def feed (obstacle : Nat → Option IoError) : Bytes → Nat → Except IoError Unit × Bytes
  | [], _ => (.ok (), [])
  | b :: rest, position => match obstacle position with
    | some e => (.error e, [])
    | none =>
      let (result, out) := feed obstacle rest (position + 1)
      (result, b :: out)

theorem feed_append {obstacle : Nat → Option IoError} {front : Bytes} {position : Nat}
    (clear : ∀ k < front.length, obstacle (position + k) = none) (back : Bytes) :
    feed obstacle (front ++ back) position =
      ((feed obstacle back (position + front.length)).1,
        front ++ (feed obstacle back (position + front.length)).2) := by
  induction front generalizing position with
  | nil => rfl
  | cons b front ih =>
    have here : obstacle position = none := clear 0 (Nat.zero_lt_succ _)
    have later : ∀ k < front.length, obstacle (position + 1 + k) = none := by
      intro k less
      rw [Nat.add_right_comm, Nat.add_assoc]
      exact clear (k + 1) (Nat.succ_lt_succ less)
    have place : position + 1 + front.length = position + (b :: front).length := by
      rw [List.length_cons]
      omega
    simp only [List.cons_append, feed, here, ih later, place]

theorem obstacle_congr (fault : t.schedule.fault = s.schedule.fault) (room : t.room = s.room) :
    t.obstacle stuck = s.obstacle stuck := by
  funext position
  simp only [obstacle, full, fault, room]

theorem obstacle_of_error {e : IoError} {call : Nat}
    (refused : s.schedule.allowance call s.size = .error e) :
    s.obstacle stuck s.size = some e := by
  unfold Stream.Schedule.allowance at refused
  unfold obstacle
  split at refused
  · contradiction
  · next place error fault =>
    split at refused
    · next reached =>
      obtain rfl := Except.error.inj refused
      simp only [fault, if_pos reached]
    · contradiction

theorem obstacle_of_clear {position : Nat}
    (clear : ∀ place e, s.schedule.fault = some (place, e) → position < place) :
    s.obstacle stuck position = s.full stuck position := by
  unfold obstacle
  split
  · next place e fault => rw [if_neg (Nat.not_le.2 (clear place e fault))]
  · rfl

/-- The room takes nothing where it ends, and otherwise something up to its end. -/
theorem room_cases (stuck : IoError) (s : Sink) {most : Option Nat} {want : Nat}
    (moves : ∀ want, 0 < want → 0 < atMost most want) (positive : 0 < want) :
    atMost (s.bound most) want ≤ atMost most want ∧
      (atMost (s.bound most) want = 0 ∧ s.full stuck s.size = some stuck ∨
        0 < atMost (s.bound most) want ∧
          ∀ k < atMost (s.bound most) want, s.full stuck (s.size + k) = none) := by
  cases roomy : s.room with
  | none =>
    simp only [bound, full, roomy]
    exact ⟨Nat.le_refl _, .inr ⟨moves want positive, fun _ _ => trivial⟩⟩
  | some room =>
    have inside := atMost_le most (room - s.size)
    have taken : atMost (s.bound most) want = min (atMost most (room - s.size)) want := by
      simp only [bound, roomy]
      rfl
    have less : min (atMost most (room - s.size)) want ≤ atMost most want := by
      cases most with
      | none => exact Nat.min_le_right ..
      | some m =>
        simp only [atMost]
        omega
    rw [taken]
    refine ⟨less, ?_⟩
    simp only [full, roomy]
    by_cases ends : room ≤ s.size
    · exact .inl ⟨by omega, if_pos ends⟩
    · refine .inr ⟨Nat.lt_min.2 ⟨moves _ (by omega), positive⟩, fun k before => ?_⟩
      rw [if_neg (by omega)]

theorem write_allowed {most : Option Nat} (b : Bytes)
    (allowed : s.schedule.allowance (s.schedule.resume (s.calls + 1)) s.size = .ok most) :
    ∃ next, s.write b = (.ok (atMost (s.bound most) b.length), next) := by
  simp only [write, allowed]
  cases s.bound most with
  | none => exact ⟨_, rfl⟩
  | some n => exact ⟨_, by rw [List.length_take]; rfl⟩

/-- A write meets what stands at its position, or takes some bytes with nothing in their way. -/
theorem write_cases (stuck : IoError) (moving : s.schedule.Moving) (something : b ≠ []) :
    (∃ e next, s.write b = (.error e, next) ∧ s.obstacle stuck s.size = some e) ∨
    (∃ next, s.write b = (.ok 0, next) ∧ s.obstacle stuck s.size = some stuck) ∨
    ∃ n next, s.write b = (.ok (n + 1), next) ∧ n < b.length ∧
      ∀ k < n + 1, s.obstacle stuck (s.size + k) = none := by
  have positive : 0 < b.length := List.length_pos_iff.2 something
  cases allowed : s.schedule.allowance (s.schedule.resume (s.calls + 1)) s.size with
  | error e =>
    refine .inl ⟨e, { s with calls := s.schedule.resume (s.calls + 1) }, ?_,
      obstacle_of_error allowed⟩
    simp only [write, allowed]
  | ok most =>
    obtain ⟨next, wrote⟩ := write_allowed b allowed
    have free (want : Nat) (asks : 0 < want) :=
      Stream.Schedule.clear_of_allowance moving asks allowed
    obtain ⟨moves, clear⟩ := free b.length positive
    obtain ⟨fits, ended | ⟨takes, roomy⟩⟩ :=
      room_cases stuck s (fun want asks => (free want asks).1) positive
    · refine .inr (.inl ⟨next, by rw [wrote, ended.1], ?_⟩)
      exact (obstacle_of_clear (clear 0 moves)).trans ended.2
    · obtain ⟨n, taken⟩ : ∃ n, atMost (s.bound most) b.length = n + 1 :=
        ⟨_, (Nat.succ_pred_eq_of_pos takes).symm⟩
      have short := atMost_le (s.bound most) b.length
      rw [taken] at roomy fits short
      refine .inr (.inr ⟨n, next, by rw [wrote, taken], short, fun k less => ?_⟩)
      exact (obstacle_of_clear (clear k (Nat.lt_of_lt_of_le less fits))).trans (roomy k less)

/-- What goes out of some bytes is what would go out of them one by one. -/
theorem writeAll_eq_feed (stuck : IoError) (b : Bytes) (s : Sink) (moving : s.schedule.Moving) :
    (s.writeAll stuck b).1 = (feed (s.obstacle stuck) b s.size).1 ∧
      (s.writeAll stuck b).2.accepted = s.accepted ++ (feed (s.obstacle stuck) b s.size).2 := by
  fun_induction writeAll stuck b s with
  | case1 s => simp [feed]
  | case2 s first rest e next wrote =>
    rcases write_cases stuck moving (List.cons_ne_nil first rest) with
      ⟨f, mid, answers, stands⟩ | ⟨mid, answers, -⟩ | ⟨n, mid, answers, -⟩
    · obtain ⟨rfl, rfl⟩ := by simpa [answers] using wrote
      simp [feed, stands, write_error wrote]
    · simp [answers] at wrote
    · simp [answers] at wrote
  | case3 s first rest next wrote =>
    rcases write_cases stuck moving (List.cons_ne_nil first rest) with
      ⟨f, mid, answers, -⟩ | ⟨mid, answers, stands⟩ | ⟨n, mid, answers, -⟩
    · simp [answers] at wrote
    · simp [feed, stands, accepted_of_write wrote]
    · simp [answers] at wrote
  | case4 s first rest n next wrote ih =>
    have alike := write_alike wrote
    have accepted := accepted_of_write wrote
    obtain ⟨result, out⟩ := ih (alike.schedule ▸ moving)
    rcases write_cases stuck moving (List.cons_ne_nil first rest) with
      ⟨f, mid, answers, -⟩ | ⟨mid, answers, -⟩ | ⟨m, mid, answers, less, clear⟩
    · simp [answers] at wrote
    · simp [answers] at wrote
    · obtain ⟨rfl, rfl⟩ := by simpa [answers] using wrote
      have width : ((first :: rest).take (m + 1)).length = m + 1 := by
        rw [List.length_take]
        omega
      have size : mid.size = s.size + (m + 1) := by
        rw [← length_accepted, accepted, List.length_append, length_accepted, width]
      have whole : first :: rest = (first :: rest).take (m + 1) ++ rest.drop m :=
        (List.take_append_drop (m + 1) (first :: rest)).symm
      have same : mid.obstacle stuck = s.obstacle stuck :=
        obstacle_congr (by rw [alike.schedule]) alike.room
      rw [same, size] at result out
      rw [whole, feed_append (by rwa [width]), width]
      exact ⟨result, by rw [out, accepted, List.append_assoc]⟩

/-! ### Sinks that differ in their calls only -/

/-- A flush that is not made again. -/
def lasts (e : IoError) : Bool := e.kind ≠ .interrupted

/-- Both take something whenever they can, and they have the same obstacles, the same errors of
flushes and the same bytes. What is left open is how writes are cut short and which calls are
interrupted. -/
structure Twin (s t : Sink) : Prop where
  moving : s.schedule.Moving
  other : t.schedule.Moving
  fault : t.schedule.fault = s.schedule.fault
  room : t.room = s.room
  flushes : t.flushes.filter lasts = s.flushes.filter lasts
  flushFault : t.flushFault = s.flushFault
  accepted : t.accepted = s.accepted

/-- The same obstacles and errors with no write cut short and no call interrupted. -/
def smooth (s : Sink) : Sink :=
  { s with
    schedule := { Stream.Schedule.steady with fault := s.schedule.fault }
    flushes := s.flushes.filter lasts }

theorem twin_smooth (moving : s.schedule.Moving) : s.smooth.Twin s where
  moving := Stream.Schedule.moving_steady
  other := moving
  fault := rfl
  room := rfl
  flushes := by simp [smooth]
  flushFault := rfl
  accepted := rfl

theorem Twin.writeAll (twin : s.Twin t) (stuck : IoError) (b : Bytes) :
    (t.writeAll stuck b).1 = (s.writeAll stuck b).1 ∧
      (s.writeAll stuck b).2.Twin (t.writeAll stuck b).2 := by
  obtain ⟨result, out⟩ := writeAll_eq_feed stuck b s twin.moving
  obtain ⟨answer, taken⟩ := writeAll_eq_feed stuck b t twin.other
  have size : t.size = s.size := by rw [← length_accepted, twin.accepted, length_accepted]
  rw [obstacle_congr twin.fault twin.room, size] at answer taken
  have first := writeAll_alike stuck b s
  have second := writeAll_alike stuck b t
  refine ⟨answer.trans result.symm, ?_⟩
  exact {
    moving := first.schedule ▸ twin.moving
    other := second.schedule ▸ twin.other
    fault := by rw [first.schedule, second.schedule, twin.fault]
    room := by rw [first.room, second.room, twin.room]
    flushes := by rw [first.flushes, second.flushes, twin.flushes]
    flushFault := by rw [first.flushFault, second.flushFault, twin.flushFault]
    accepted := by rw [taken, out, twin.accepted] }

/-- The errors of flushes that are passed over are those in front of the first that lasts. -/
theorem dropWhile_interrupted (errors : List IoError) :
    match errors.filter lasts with
    | [] => errors.dropWhile (·.kind = .interrupted) = []
    | e :: more => ∃ rest, errors.dropWhile (·.kind = .interrupted) = e :: rest ∧
        rest.filter lasts = more := by
  induction errors with
  | nil => rfl
  | cons e rest ih =>
    by_cases again : e.kind = .interrupted
    · simpa [lasts, again] using ih
    · simp [lasts, again]

theorem flush_of_nil (calm : s.flushes = []) :
    ∃ marks, s.flush = ((match s.flushFault with | some e => .error e | none => .ok ()),
      { s with flushedAt := marks }) := by
  obtain lasting | ⟨e, lasting⟩ := Option.eq_none_or_eq_some s.flushFault
  · exact ⟨s.size :: s.flushedAt, by simp only [flush, calm, lasting]⟩
  · have fails : s.flush = (.error e, s) := by simp only [flush, calm, lasting]
    exact ⟨s.flushedAt, fails.trans (Prod.ext (by simp only [lasting]) rfl)⟩

theorem Twin.flushed {front back : List IoError} {marks others : List Nat} (twin : s.Twin t)
    (same : back.filter lasts = front.filter lasts) :
    ({ s with flushes := front, flushedAt := marks } : Sink).Twin
      { t with flushes := back, flushedAt := others } :=
  { twin with flushes := same }

theorem Twin.flushAgain (twin : s.Twin t) :
    t.flushAgain.1 = s.flushAgain.1 ∧ s.flushAgain.2.Twin t.flushAgain.2 := by
  have first := dropWhile_interrupted s.flushes
  have second := dropWhile_interrupted t.flushes
  rw [twin.flushes] at second
  match errors : s.flushes.filter lasts with
  | [] =>
    simp only [errors] at first second
    obtain ⟨marks, answer⟩ := flush_of_nil (s := { s with flushes := [] }) rfl
    obtain ⟨others, reply⟩ := flush_of_nil (s := { t with flushes := [] }) rfl
    rw [Sink.flushAgain, Sink.flushAgain, first, second, answer, reply]
    exact ⟨by simp only [twin.flushFault], twin.flushed rfl⟩
  | e :: more =>
    simp only [errors] at first second
    obtain ⟨rest, drops, left⟩ := first
    obtain ⟨others, skips, same⟩ := second
    rw [Sink.flushAgain, Sink.flushAgain, drops, skips]
    exact ⟨rfl, twin.flushed (same.trans left.symm)⟩

end Sink
end DumpArchive
