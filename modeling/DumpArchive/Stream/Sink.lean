import DumpArchive.Bytes
import DumpArchive.Stream.Schedule

/-! Output streams. What a sink has accepted is kept newest byte first, so that a write costs
no more than its own length. -/
namespace DumpArchive

structure Sink where
  schedule : Stream.Schedule
  /-- The sink accepts no more bytes than this. -/
  room : Option Nat
  /-- Errors of the next flushes, then `flushFault` for every later one. -/
  flushes : List IoError
  flushFault : Option IoError
  newestFirst : Bytes
  size : Nat
  calls : Nat
  /-- How many bytes had been accepted at each flush that succeeded, the last flush first. -/
  flushedAt : List Nat
  size_eq : size = newestFirst.length

namespace Sink

def fresh (schedule : Stream.Schedule) (room : Option Nat) (flushes : List IoError)
    (flushFault : Option IoError) : Sink :=
  ⟨schedule, room, flushes, flushFault, [], 0, 0, [], rfl⟩

def empty : Sink := fresh .steady none [] none

/-- Everything accepted so far, in order. -/
def accepted (s : Sink) : Bytes := s.newestFirst.reverse

theorem length_accepted (s : Sink) : s.accepted.length = s.size := by
  simp [accepted, s.size_eq]

def accept (b : Bytes) (s : Sink) : Sink :=
  { s with
    newestFirst := b.reverseAux s.newestFirst
    size := s.size + b.length
    size_eq := by simp [s.size_eq, List.reverseAux_eq, Nat.add_comm] }

@[simp] theorem accepted_accept (b : Bytes) (s : Sink) :
    (s.accept b).accepted = s.accepted ++ b := by
  simp [accept, accepted, List.reverseAux_eq]

/-- The bound on what a call may take, given that of the schedule. -/
def bound (most : Option Nat) (s : Sink) : Option Nat :=
  match s.room with
  | some room => some (Stream.Schedule.atMost most (room - s.size))
  | none => most

/-- The first call that is not interrupted. Returns how many bytes it took. -/
def write (b : Bytes) (s : Sink) : Except IoError Nat × Sink :=
  let call := s.schedule.resume (s.calls + 1)
  match s.schedule.allowance call s.size with
  | .error e => (.error e, { s with calls := call })
  | .ok most =>
    let chunk := match s.bound most with
      | some n => b.take n
      | none => b
    (.ok chunk.length, ({ s with calls := call } : Sink).accept chunk)

/-- Hands over the whole of `b`. A call that takes nothing is the error `stuck`. -/
def writeAll (stuck : IoError) (b : Bytes) (s : Sink) : Except IoError Unit × Sink :=
  match b with
  | [] => (.ok (), s)
  | first :: rest => match s.write (first :: rest) with
    | (.error e, s) => (.error e, s)
    | (.ok 0, s) => (.error stuck, s)
    | (.ok (n + 1), s) => s.writeAll stuck (rest.drop n)
termination_by b.length
decreasing_by
  rw [List.length_drop]
  exact Nat.lt_succ_of_le (Nat.sub_le ..)

/-- One flush call. -/
def flush (s : Sink) : Except IoError Unit × Sink :=
  match s.flushes with
  | e :: rest => (.error e, { s with flushes := rest })
  | [] => match s.flushFault with
    | some e => (.error e, s)
    | none => (.ok (), { s with flushedAt := s.size :: s.flushedAt })

/-- Repeats a flush as long as it is interrupted. -/
def flushAgain (s : Sink) : Except IoError Unit × Sink :=
  ({ s with flushes := s.flushes.dropWhile (·.kind = .interrupted) } : Sink).flush

end Sink
end DumpArchive
