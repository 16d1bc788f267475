/-! How a byte stream answers its calls: interruptions, short transfers and a final fault. -/
namespace DumpArchive

/-- The kinds of stream error that callers tell apart. -/
inductive IoKind where
  | notFound
  | permissionDenied
  | brokenPipe
  | invalidData
  | interrupted
  | other
  deriving DecidableEq, Repr

structure IoError where
  kind : IoKind
  text : String
  deriving DecidableEq, Repr

namespace Stream

/-- Calls are numbered from one. An interrupted call moves nothing and is repeated by the
caller; there are at most `patience` of them in a row. From the position in `fault` on,
every other call fails. -/
structure Schedule where
  interrupts : Nat → Bool
  patience : Nat
  resumes : ∀ n, ∃ k, k ≤ patience ∧ interrupts (n + k) = false
  limit : Nat → Option Nat
  fault : Option (Nat × IoError)

namespace Schedule

def steady : Schedule where
  interrupts _ := false
  patience := 0
  resumes _ := ⟨0, Nat.le_refl 0, rfl⟩
  limit _ := none
  fault := none

/-- Interrupts the calls whose number is a multiple of `period`, none for period zero.
A period of one is excluded: such a stream would never answer. -/
def periodic (period : Nat) (answers : period ≠ 1) (chunk : Option Nat)
    (fault : Option (Nat × IoError)) : Schedule where
  interrupts n := period ≠ 0 && n % period = 0
  patience := 1
  resumes n := by
    by_cases busy : period ≠ 0 ∧ n % period = 0
    · refine ⟨1, Nat.le_refl 1, ?_⟩
      obtain ⟨m, rfl⟩ := Nat.dvd_of_mod_eq_zero busy.2
      have large : 1 < period := by omega
      simp [Nat.mod_eq_of_lt large]
    · refine ⟨0, Nat.zero_le 1, ?_⟩
      simpa using busy
  limit _ := chunk
  fault := fault

/-- The first call from `n` on that is not interrupted, looking at most `fuel` calls ahead. -/
def resumeWithin (s : Schedule) : Nat → Nat → Nat
  | 0, n => n
  | fuel + 1, n => if s.interrupts n then s.resumeWithin fuel (n + 1) else n

def resume (s : Schedule) (n : Nat) : Nat := s.resumeWithin s.patience n

theorem resumeWithin_quiet (s : Schedule) (fuel n : Nat)
    (quiet : ∃ k, k ≤ fuel ∧ s.interrupts (n + k) = false) :
    s.interrupts (s.resumeWithin fuel n) = false := by
  induction fuel generalizing n with
  | zero =>
    obtain ⟨k, bound, off⟩ := quiet
    obtain rfl : k = 0 := by omega
    exact off
  | succ fuel ih =>
    rw [resumeWithin]
    split
    · next busy =>
      apply ih
      obtain ⟨k, bound, off⟩ := quiet
      cases k with
      | zero => simp_all
      | succ k => exact ⟨k, by omega, by rw [← off]; congr 1; omega⟩
    · next off => simpa using off

/-- The call that is answered is not an interrupted one. -/
theorem interrupts_resume (s : Schedule) (n : Nat) : s.interrupts (s.resume n) = false :=
  s.resumeWithin_quiet s.patience n (s.resumes n)

/-- The smaller of a bound, if there is one, and a number. -/
def atMost : Option Nat → Nat → Nat
  | none, n => n
  | some bound, n => min bound n

/-- The bound on what a call may move at a position, or the fault that it meets there. -/
def allowance (s : Schedule) (call position : Nat) : Except IoError (Option Nat) :=
  match s.fault with
  | none => .ok (s.limit call)
  | some (place, error) =>
    if place ≤ position then .error error
    else .ok (some (atMost (s.limit call) (place - position)))

end Schedule
end Stream
end DumpArchive
