import DumpArchive.Proofs.Attempts

/-! Raw calls of a sink. `writeAll` and `flushAgain` stand for loops that make an interrupted call
again; here every call is made by itself. The loops end, as long as no error that lasts is itself
an interruption. -/
namespace DumpArchive.Sink

/-- The error of an interrupted call. -/
def interruption : IoError := ⟨.interrupted, "interrupted"⟩

/-- The answer to a write with this number. -/
def answer (call : Nat) (b : Bytes) (s : Sink) : Except IoError Nat × Sink :=
  match s.schedule.allowance call s.size with
  | .error e => (.error e, { s with calls := call })
  | .ok most =>
    let chunk := match s.bound most with
      | some n => b.take n
      | none => b
    (.ok chunk.length, ({ s with calls := call } : Sink).accept chunk)

/-- One raw write. -/
def attempt (b : Bytes) (s : Sink) : Except IoError Nat × Sink :=
  let call := s.calls + 1
  if s.schedule.interrupts call then (.error interruption, { s with calls := call })
  else s.answer call b

/-- The loop over raw writes, given up when `fuel` calls have not been enough. -/
def writeAllWithin (stuck : IoError) : Nat → Bytes → Sink → Option (Except IoError Unit × Sink)
  | _, [], s => some (.ok (), s)
  | 0, _ :: _, _ => none
  | fuel + 1, first :: rest, s => match s.attempt (first :: rest) with
    | (.ok 0, s) => some (.error stuck, s)
    | (.ok (n + 1), s) => writeAllWithin stuck fuel (rest.drop n) s
    | (.error e, s) =>
      if e.kind = .interrupted then writeAllWithin stuck fuel (first :: rest) s
      else some (.error e, s)

/-- The loop over flushes, given up in the same way. -/
def flushWithin : Nat → Sink → Option (Except IoError Unit × Sink)
  | 0, _ => none
  | fuel + 1, s => match s.flush with
    | (.ok (), s) => some (.ok (), s)
    | (.error e, s) => if e.kind = .interrupted then flushWithin fuel s else some (.error e, s)

/-- Errors that last are none that a caller passes over. -/
structure Hard (s : Sink) : Prop where
  fault : ∀ place e, s.schedule.fault = some (place, e) → e.kind ≠ .interrupted
  flush : ∀ e, s.flushFault = some e → e.kind ≠ .interrupted

variable {s next : Sink} {stuck : IoError} {b : Bytes}

theorem Alike.hard (alike : s.Alike next) (hard : s.Hard) : next.Hard where
  fault := alike.schedule ▸ hard.fault
  flush := alike.flushFault ▸ hard.flush

theorem write_eq_answer (b : Bytes) (s : Sink) :
    s.write b = s.answer (s.schedule.resume (s.calls + 1)) b := rfl

theorem kind_of_write {e : IoError} (hard : s.Hard) (h : s.write b = (.error e, next)) :
    e.kind ≠ .interrupted := by
  simp only [write] at h
  split at h
  · next failed refused =>
    obtain ⟨rfl, -⟩ := by simpa using h
    unfold Stream.Schedule.allowance at refused
    split at refused
    · contradiction
    · next place error fault =>
      split at refused
      · obtain rfl := Except.error.inj refused
        exact hard.fault place error fault
      · contradiction
  · simp at h

/-- Interrupted writes cost their number and nothing else. -/
theorem writeAllWithin_skip (some : b ≠ []) (fuel skipped : Nat)
    (busy : ∀ k < skipped, s.schedule.interrupts (s.calls + 1 + k) = true) :
    s.writeAllWithin stuck (fuel + skipped) b =
      ({ s with calls := s.calls + skipped } : Sink).writeAllWithin stuck fuel b := by
  obtain ⟨first, rest, rfl⟩ := List.exists_cons_of_ne_nil some
  induction skipped generalizing s with
  | zero => rfl
  | succ skipped ih =>
    have now : s.schedule.interrupts (s.calls + 1) = true := busy 0 (by omega)
    have others : ∀ k < skipped, s.schedule.interrupts (s.calls + 1 + 1 + k) = true := by
      intro k before
      rw [Nat.add_right_comm (s.calls + 1) 1 k, Nat.add_assoc (s.calls + 1) k 1]
      exact busy (k + 1) (by omega)
    rw [← Nat.add_assoc, writeAllWithin]
    simp only [attempt, now, if_true, interruption]
    rw [ih others, Nat.add_right_comm s.calls 1 skipped, Nat.add_assoc s.calls skipped 1]

/-- With fuel for the interruptions before it, the loop comes to the next answer. -/
theorem writeAllWithin_write (hard : s.Hard) (stuck : IoError) (first : UInt8) (rest : Bytes) :
    ∃ skipped ≤ s.schedule.patience, ∀ fuel,
      s.writeAllWithin stuck (fuel + 1 + skipped) (first :: rest) =
        match s.write (first :: rest) with
        | (.error e, s) => some (.error e, s)
        | (.ok 0, s) => some (.error stuck, s)
        | (.ok (n + 1), s) => s.writeAllWithin stuck fuel (rest.drop n) := by
  obtain ⟨skipped, bound, resumes, busy⟩ :=
    s.schedule.resumeWithin_skips s.schedule.patience (s.calls + 1)
  refine ⟨skipped, bound, fun fuel => ?_⟩
  have call : s.schedule.resume (s.calls + 1) = s.calls + skipped + 1 :=
    resumes.trans (Nat.add_right_comm ..)
  have answered := s.schedule.interrupts_resume (s.calls + 1)
  rw [call] at answered
  have same : ({ s with calls := s.calls + skipped } : Sink).attempt (first :: rest) =
      s.write (first :: rest) := by
    rw [write_eq_answer, call]
    simp only [attempt, answered, Bool.false_eq_true, if_false]
    rfl
  rw [writeAllWithin_skip (List.cons_ne_nil first rest) _ _ busy, writeAllWithin, same]
  rcases wrote : s.write (first :: rest) with ⟨e | _ | n, next⟩
  · simp only [if_neg (kind_of_write hard wrote)]
  · rfl
  · rfl

/-- As many calls are enough as there are bytes to put out, each with all the interruptions that
may come before it. -/
theorem writeAllWithin_eq (hard : s.Hard) (stuck : IoError) (b : Bytes) (fuel : Nat)
    (enough : b.length * (s.schedule.patience + 1) ≤ fuel) :
    s.writeAllWithin stuck fuel b = some (s.writeAll stuck b) := by
  induction size : b.length using Nat.strong_induction_on generalizing b fuel s with
  | _ _ ih =>
    subst size
    cases b with
    | nil => cases fuel <;> simp [writeAllWithin, writeAll]
    | cons first rest =>
      obtain ⟨skipped, bound, loop⟩ := writeAllWithin_write hard stuck first rest
      rw [List.length_cons, Nat.add_one_mul] at enough
      obtain ⟨fuel, rfl⟩ : ∃ left, fuel = left + 1 + skipped := ⟨fuel - 1 - skipped, by omega⟩
      rw [loop, writeAll]
      rcases wrote : s.write (first :: rest) with ⟨e | _ | n, next⟩
      · rfl
      · rfl
      · have alike := write_alike wrote
        have least : (rest.drop n).length * (s.schedule.patience + 1) ≤
            rest.length * (s.schedule.patience + 1) :=
          Nat.mul_le_mul_right _ (by rw [List.length_drop]; omega)
        refine ih _ ?_ (alike.hard hard) _ _ ?_ rfl
        · simp only [List.length_drop, List.length_cons]
          omega
        · rw [alike.schedule]
          omega

/-- A flush that fails for now is one of the errors before the lasting one. -/
theorem flushWithin_eq (hard : s.Hard) (fuel : Nat) (enough : s.flushes.length < fuel) :
    s.flushWithin fuel = some s.flushAgain := by
  induction errors : s.flushes generalizing s fuel with
  | nil =>
    obtain ⟨fuel, rfl⟩ : ∃ left, fuel = left + 1 := ⟨fuel - 1, by omega⟩
    have again : s.flushAgain = s.flush := by
      rw [flushAgain, errors, List.dropWhile_nil, ← errors]
    rw [again, flushWithin]
    cases lasting : s.flushFault with
    | none => simp [flush, errors, lasting]
    | some e => simp [flush, errors, lasting, hard.flush e lasting]
  | cons e rest ih =>
    obtain ⟨fuel, rfl⟩ : ∃ left, fuel = left + 1 := ⟨fuel - 1, by omega⟩
    have first : s.flush = (.error e, { s with flushes := rest }) := by simp [flush, errors]
    rw [flushWithin, first]
    by_cases again : e.kind = .interrupted
    · have later := ih (s := { s with flushes := rest }) ⟨hard.fault, hard.flush⟩ fuel
        (by simpa [errors] using enough) rfl
      simp only [again, if_true, later]
      simp [flushAgain, errors, again]
    · simp [flushAgain, errors, again, flush]

end DumpArchive.Sink
