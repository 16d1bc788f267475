import DumpArchive.Demultiplexer

/-! Running a demultiplexer together with its consumers. Each turn uses up input or brings the
engine closer to its stop, so a run ends whatever the consumers do. -/
namespace DumpArchive.Demultiplexer

/-- Consumers in state `σ`. `wake` lets them do what they can without a record; `offer` hands
one over and says whether it was taken. Both may register further namespaces. -/
structure Consumers (σ : Type) where
  wake : (Nat → Signal) → Roster → σ → Roster × σ
  offer : Nat → Bytes → Roster → σ → Bool × Roster × σ

/-- Consumers that are never offered anything. -/
def Consumers.none : Consumers Unit where
  wake _ roster _ := (roster, ())
  offer _ _ roster _ := (false, roster, ())

def Stage.rank : Stage → Nat
  | .offering .. => 3
  | .reading => 2
  | .ending _ => 1
  | _ => 0

def work (d : Demultiplexer) : Nat := 4 * d.reader.remaining + d.stage.rank

@[simp] theorem reader_reject (offset : Nat) (defect : Defect) (d : Demultiplexer) :
    (d.reject offset defect).reader = d.reader := rfl

theorem reader_dispatch (part : Block.Part) (d : Demultiplexer) :
    (d.dispatch part).reader = d.reader := by
  unfold dispatch
  split
  · simp only [readHeader]
    repeat' split
    all_goals rfl
  · unfold readBody
    repeat' split
    all_goals rfl
  · rfl
  · unfold readEnd
    split <;> rfl

theorem rank_le (stage : Stage) : stage.rank ≤ 3 := by
  cases stage <;> simp [Stage.rank]

theorem work_dispatch_le (part : Block.Part) (d : Demultiplexer) :
    (d.dispatch part).work ≤ 4 * d.reader.remaining + 3 := by
  rw [work, reader_dispatch]
  exact Nat.add_le_add_left (rank_le _) _

/-- The end of the input leads out of the reading stage. -/
theorem work_readEnd (offset : Nat) (d : Demultiplexer) :
    (d.readEnd offset).work = 4 * d.reader.remaining + 1 := by
  unfold readEnd
  split <;> rfl

/-- Every turn of a working engine uses up input or brings it closer to its stop. -/
theorem work_step_lt (d : Demultiplexer)
    (busy : d.stage = .reading ∨ ∃ result, d.stage = .ending result) : d.step.work < d.work := by
  rcases busy with stage | ⟨result, stage⟩
  · have before : d.work = 4 * d.reader.remaining + 2 := by rw [work, stage]; rfl
    have le := Block.remaining_nextPart_le d.place d.reader
    rw [before]
    unfold step
    simp only [stage]
    split
    · next e reader found =>
      rw [found] at le
      change 4 * reader.remaining + 1 < _
      have : reader.remaining ≤ d.reader.remaining := le
      omega
    · next part reader found =>
      rw [found] at le
      have least : reader.remaining ≤ d.reader.remaining := le
      cases part with
      | finish offset =>
        rw [dispatch, work_readEnd]
        change 4 * reader.remaining + 1 < _
        omega
      | header | body | close =>
        have less := Block.remaining_of_nextPart found (by simp)
        refine Nat.lt_of_le_of_lt (work_dispatch_le ..) ?_
        change 4 * reader.remaining + 3 < _
        omega
  · cases result <;> simp [step, stage, work, Stage.rank]

theorem work_resolve_lt (taken : Bool) (d : Demultiplexer) {ns : Namespace} {outlet : Nat}
    {record : Bytes} (stage : d.stage = .offering ns outlet record) :
    (d.resolve taken).work < d.work := by
  unfold resolve
  simp only [stage]
  split <;> simp [work, stage, Stage.rank]

/-- Runs the engine and its consumers until the engine has stopped. -/
def drive {σ : Type} (consumers : Consumers σ) (d : Demultiplexer) (state : σ) :
    Demultiplexer × σ :=
  let (roster, state) := consumers.wake d.signal d.roster state
  match _stage : d.stage with
  | .offering _ outlet record =>
    let (taken, roster, state) := consumers.offer outlet record roster state
    drive consumers ({ d with roster }.resolve taken) state
  | .reading => drive consumers ({ d with roster } : Demultiplexer).step state
  | .ending _ => drive consumers ({ d with roster } : Demultiplexer).step state
  | .idle => ({ d with roster }, state)
  | .stopped _ => ({ d with roster }, state)
termination_by d.work
decreasing_by
  · exact work_resolve_lt taken { d with roster } _stage
  · exact work_step_lt { d with roster } (.inl _stage)
  · exact work_step_lt { d with roster } (.inr ⟨_, _stage⟩)

/-- What a run has come to. -/
def result (d : Demultiplexer) : Except EngineError Summary :=
  match d.stage with
  | .stopped result => result
  | _ => .ok d.summary

end DumpArchive.Demultiplexer
