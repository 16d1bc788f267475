import DumpArchive.Proofs.Sources

/-! Raw calls. `read` stands for a call together with the interrupted ones before it; here they are
counted one by one, and a request is met or fails after finitely many of them. -/
namespace DumpArchive

namespace Stream.Schedule

/-- The calls that are passed over were interrupted, and there are at most `fuel` of them. -/
theorem resumeWithin_skips (s : Schedule) (fuel n : Nat) :
    ∃ skipped ≤ fuel, s.resumeWithin fuel n = n + skipped ∧
      ∀ k < skipped, s.interrupts (n + k) = true := by
  induction fuel generalizing n with
  | zero => exact ⟨0, Nat.le_refl 0, rfl, by simp⟩
  | succ fuel ih =>
    by_cases busy : s.interrupts n
    · obtain ⟨skipped, bound, resumes, others⟩ := ih (n + 1)
      refine ⟨skipped + 1, by omega, ?_, ?_⟩
      · rw [resumeWithin, if_pos busy, resumes]
        omega
      · intro k before
        cases k with
        | zero => exact busy
        | succ k =>
          rw [show n + (k + 1) = n + 1 + k by omega]
          exact others k (by omega)
    · exact ⟨0, by omega, by rw [resumeWithin, if_neg busy, Nat.add_zero], by simp⟩

end Stream.Schedule

namespace Source

/-- The answer to a call with this number. -/
def answer (call want : Nat) (s : Source) : Except IoError Bytes × Source :=
  match s.schedule.allowance call s.position with
  | .error e => (.error e, { s with calls := call })
  | .ok bound =>
    let chunk := s.pending.take (Stream.Schedule.atMost bound want)
    (.ok chunk, { s with
      pending := s.pending.drop (Stream.Schedule.atMost bound want)
      position := s.position + chunk.length
      calls := call })

/-- One raw call; no answer if it is interrupted. -/
def attempt (want : Nat) (s : Source) : Option (Except IoError Bytes) × Source :=
  let call := s.calls + 1
  if s.schedule.interrupts call then (none, { s with calls := call })
  else
    let (answer, s) := s.answer call want
    (some answer, s)

/-- The loop over raw calls, given up when `fuel` calls have not been enough. -/
def fillWithin : Nat → Bytes → Nat → Source → Option (Except IoError Bytes × Source)
  | 0, taken, want, s => if want = 0 then some (.ok taken.reverse, s) else none
  | fuel + 1, taken, want, s =>
    if want = 0 then some (.ok taken.reverse, s)
    else match s.attempt want with
      | (none, s) => fillWithin fuel taken want s
      | (some (.error e), s) => some (.error e, s)
      | (some (.ok []), s) => some (.ok taken.reverse, s)
      | (some (.ok (b :: chunk)), s) =>
        fillWithin fuel (chunk.reverseAux (b :: taken)) (want - (chunk.length + 1)) s

variable {s : Source} {want : Nat} {taken : Bytes}

theorem fillWithin_zero (fuel : Nat) (taken : Bytes) (s : Source) :
    s.fillWithin fuel taken 0 = some (.ok taken.reverse, s) := by
  cases fuel <;> simp [fillWithin]

theorem read_eq_answer (want : Nat) (s : Source) :
    s.read want = s.answer (s.schedule.resume (s.calls + 1)) want := rfl

/-- Interrupted calls cost their number and nothing else. -/
theorem fillWithin_skip (more : want ≠ 0) (fuel skipped : Nat)
    (busy : ∀ k < skipped, s.schedule.interrupts (s.calls + 1 + k) = true) :
    s.fillWithin (fuel + skipped) taken want =
      ({ s with calls := s.calls + skipped } : Source).fillWithin fuel taken want := by
  induction skipped generalizing s with
  | zero => rfl
  | succ skipped ih =>
    have first : s.schedule.interrupts (s.calls + 1) = true := busy 0 (by omega)
    have others : ∀ k < skipped, s.schedule.interrupts (s.calls + 1 + 1 + k) = true := by
      intro k before
      rw [Nat.add_right_comm (s.calls + 1) 1 k, Nat.add_assoc (s.calls + 1) k 1]
      exact busy (k + 1) (by omega)
    rw [← Nat.add_assoc, fillWithin, if_neg more]
    simp only [attempt, first, if_true]
    rw [ih others, Nat.add_right_comm s.calls 1 skipped, Nat.add_assoc s.calls skipped 1]

/-- With fuel for the interruptions before it, the loop comes to the next answer. -/
theorem fillWithin_read (more : want ≠ 0) (taken : Bytes) (s : Source) :
    ∃ skipped ≤ s.schedule.patience, ∀ fuel,
      s.fillWithin (fuel + 1 + skipped) taken want = match s.read want with
        | (.error e, s) => some (.error e, s)
        | (.ok [], s) => some (.ok taken.reverse, s)
        | (.ok (b :: chunk), s) =>
          s.fillWithin fuel (chunk.reverseAux (b :: taken)) (want - (chunk.length + 1)) := by
  obtain ⟨skipped, bound, resumes, busy⟩ :=
    s.schedule.resumeWithin_skips s.schedule.patience (s.calls + 1)
  refine ⟨skipped, bound, fun fuel => ?_⟩
  have call : s.schedule.resume (s.calls + 1) = s.calls + skipped + 1 :=
    resumes.trans (Nat.add_right_comm ..)
  have answered := s.schedule.interrupts_resume (s.calls + 1)
  rw [call] at answered
  have same : ({ s with calls := s.calls + skipped } : Source).attempt want =
      (some (s.read want).1, (s.read want).2) := by
    rw [read_eq_answer, call]
    simp [attempt, answered, answer]
  rw [fillWithin_skip more _ _ busy, fillWithin, if_neg more, same]
  match s.read want with
  | (.error e, next) => rfl
  | (.ok [], next) => rfl
  | (.ok (b :: chunk), next) => rfl

/-- As many calls are enough as there are bytes to get, each with all the interruptions that may
come before it. -/
theorem fillWithin_eq (taken : Bytes) (want fuel : Nat) (s : Source)
    (enough : want * (s.schedule.patience + 1) ≤ fuel) :
    s.fillWithin fuel taken want = some (s.fillOnto taken want) := by
  induction want using Nat.strong_induction_on generalizing taken fuel s with
  | _ want ih =>
    by_cases more : want = 0
    · subst more
      rw [fillWithin_zero, fillOnto, if_pos rfl]
    · obtain ⟨skipped, bound, loop⟩ := fillWithin_read more taken s
      obtain ⟨less, rfl⟩ : ∃ less, want = less + 1 := ⟨want - 1, by omega⟩
      rw [Nat.add_one_mul] at enough
      obtain ⟨fuel, rfl⟩ : ∃ rest, fuel = rest + 1 + skipped := ⟨fuel - 1 - skipped, by omega⟩
      have same := s.schedule_read (less + 1)
      rw [loop, fillOnto, if_neg more]
      match answered : s.read (less + 1) with
      | (.error e, next) => rfl
      | (.ok [], next) => rfl
      | (.ok (b :: chunk), next) =>
        rw [answered] at same
        have least : (less + 1 - (chunk.length + 1)) * (s.schedule.patience + 1) ≤
            less * (s.schedule.patience + 1) := Nat.mul_le_mul_right _ (by omega)
        refine ih _ (by omega) _ _ _ ?_
        rw [same]
        omega

end Source
end DumpArchive
