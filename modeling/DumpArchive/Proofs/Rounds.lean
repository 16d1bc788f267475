/-! Schedules that give everyone a turn again and again. If a turn of someone who is ready uses up
work, and nobody else's turn makes that one wait longer, then as many rounds as there is work to do
are enough. -/
namespace DumpArchive

/-- At least `n` rounds, in each of which every one of the `actors` has a turn. -/
def Rounds {α : Type} (actors : List α) (n : Nat) (schedule : List α) : Prop :=
  ∃ rounds : List (List α), schedule = rounds.flatten ∧ n ≤ rounds.length ∧
    ∀ round ∈ rounds, ∀ a ∈ actors, a ∈ round

structure Advancing {α σ : Type} (step : α → σ → σ) (actors : List α) (Good Done : σ → Prop)
    (Ready : α → σ → Prop) (work : σ → Nat) : Prop where
  good : ∀ a s, Good s → Good (step a s)
  done : ∀ a s, Good s → Done s → Done (step a s)
  someone : ∀ s, Good s → ¬ Done s → ∃ a ∈ actors, Ready a s
  advance : ∀ a s, Good s → Ready a s → work (step a s) < work s
  patient : ∀ a s, Good s → work (step a s) < work s ∨
    work (step a s) = work s ∧ ∀ b, Ready b s → Ready b (step a s)

namespace Advancing

variable {α σ : Type} {step : α → σ → σ} {actors : List α} {Good Done : σ → Prop}
  {Ready : α → σ → Prop} {work : σ → Nat}

theorem good_foldl (advancing : Advancing step actors Good Done Ready work) {s : σ} (good : Good s)
    (schedule : List α) : Good (schedule.foldl (fun s a => step a s) s) := by
  induction schedule generalizing s with
  | nil => exact good
  | cons a rest ih => exact ih (advancing.good a s good)

theorem done_foldl (advancing : Advancing step actors Good Done Ready work) {s : σ} (good : Good s)
    (done : Done s) (schedule : List α) : Done (schedule.foldl (fun s a => step a s) s) := by
  induction schedule generalizing s with
  | nil => exact done
  | cons a rest ih => exact ih (advancing.good a s good) (advancing.done a s good done)

theorem work_foldl_le (advancing : Advancing step actors Good Done Ready work) {s : σ}
    (good : Good s) (schedule : List α) :
    work (schedule.foldl (fun s a => step a s) s) ≤ work s := by
  induction schedule generalizing s with
  | nil => exact Nat.le_refl _
  | cons a rest ih =>
    refine Nat.le_trans (ih (advancing.good a s good)) ?_
    rcases advancing.patient a s good with less | ⟨same, -⟩
    · exact Nat.le_of_lt less
    · exact Nat.le_of_eq same

/-- Who is ready stays so until some work has been done, by whomever. -/
theorem work_foldl_lt (advancing : Advancing step actors Good Done Ready work) {s : σ} {b : α}
    (good : Good s) (ready : Ready b s) {round : List α} (member : b ∈ round) :
    work (round.foldl (fun s a => step a s) s) < work s := by
  induction round generalizing s with
  | nil => contradiction
  | cons a rest ih =>
    have next := advancing.good a s good
    have after := advancing.work_foldl_le next rest
    rcases advancing.patient a s good with less | ⟨same, keep⟩
    · exact Nat.lt_of_le_of_lt after less
    · rcases List.mem_cons.1 member with rfl | later
      · exact Nat.lt_of_le_of_lt after (advancing.advance b s good ready)
      · exact same ▸ ih next (keep b ready) later

/-- More rounds than there is work lead to the end. -/
theorem done_of_rounds (advancing : Advancing step actors Good Done Ready work) {s : σ}
    (good : Good s) {schedule : List α} (enough : Rounds actors (work s + 1) schedule) :
    Done (schedule.foldl (fun s a => step a s) s) := by
  obtain ⟨rounds, rfl, many, full⟩ := enough
  -- a round does some of the work, so the rounds that are left stay more than the work
  induction rounds generalizing s with
  | nil => simp at many
  | cons round rest ih =>
    have next := advancing.good_foldl good round
    rw [List.flatten_cons, List.foldl_append]
    by_cases done : Done s
    · exact advancing.done_foldl next (advancing.done_foldl good done round) rest.flatten
    · obtain ⟨a, member, ready⟩ := advancing.someone s good done
      have turn := full round (List.mem_cons_self ..) a member
      have less := advancing.work_foldl_lt good ready turn
      refine ih next ?_ fun later held => full later (List.mem_cons_of_mem _ held)
      simp only [List.length_cons] at many
      omega

end Advancing
end DumpArchive
