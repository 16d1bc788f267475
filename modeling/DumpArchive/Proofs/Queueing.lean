import DumpArchive.Dump
import Mathlib.Data.List.Perm.Basic

/-! The intents of a dump on their way from the queue to the workers. They are queued by size, and
each leaves the queue for one worker, who begins it once. -/
namespace DumpArchive.Dump

theorem perm_ordered (intents : List Intent) : (ordered intents).Perm intents :=
  List.mergeSort_perm ..

theorem larger_trans (a b c : Intent) (ab : decide (b.size ≤ a.size) = true)
    (bc : decide (c.size ≤ b.size) = true) : decide (c.size ≤ a.size) = true := by
  simp only [decide_eq_true_eq] at ab bc ⊢
  exact UInt64.le_trans bc ab

theorem larger_total (a b : Intent) :
    (decide (b.size ≤ a.size) || decide (a.size ≤ b.size)) = true := by
  simpa using UInt64.le_total b.size a.size

/-- Larger namespaces come first. -/
theorem descending_ordered (intents : List Intent) :
    (ordered intents).Pairwise fun a b => b.size ≤ a.size := by
  have sorted := List.pairwise_mergeSort larger_trans larger_total intents
  exact sorted.imp (by simp)

/-- Those of one size keep their order. -/
theorem filter_ordered (size : UInt64) (intents : List Intent) :
    (ordered intents).filter (·.size = size) = intents.filter (·.size = size) := by
  have alike : (intents.filter (·.size = size)).Pairwise
      fun a b => decide (b.size ≤ a.size) = true := by
    apply List.pairwise_of_forall_mem_list
    intro a first b second
    obtain rfl : a.size = size := by simpa using List.of_mem_filter first
    have same : b.size = a.size := by simpa using List.of_mem_filter second
    simp [same]
  have kept : (intents.filter (·.size = size)).Sublist (ordered intents) :=
    List.sublist_mergeSort larger_trans larger_total alike List.filter_sublist
  have part := kept.filter (·.size = size)
  rw [List.filter_filter] at part
  simp only [Bool.and_self] at part
  refine (part.eq_of_length ?_).symm
  exact ((perm_ordered intents).filter _).length_eq.symm

namespace Worker

/-- The intent that a worker has and has not begun. -/
def assigned (w : Worker) : List Intent :=
  match w.stage with
  | .opening intent => [intent]
  | .attaching next => [next]
  | .closing (some (next, _)) => [next]
  | _ => []

/-- The intent that a worker has taken and has not opened the namespace of. -/
def unopened (w : Worker) : List Intent :=
  match w.stage with
  | .attaching next => [next]
  | _ => []

end Worker

namespace Pool

/-- The intents that have not been begun. -/
def pending (p : Pool) : List Intent := p.queue ++ p.workers.flatMap Worker.assigned

/-- The intents whose namespaces have not been opened. -/
def unopened (p : Pool) : List Intent := p.queue ++ p.workers.flatMap Worker.unopened

/-- A worker that is about to begin an intent, and the intent. -/
def begins (actor : Actor) (p : Pool) : Option (Nat × Intent) :=
  match actor with
  | .engine => none
  | .worker index => match p.workers[index]? with
    | some ⟨_, _, _, .opening intent⟩ => some (index, intent)
    | _ => none

/-- The intents that have been begun, each with its worker, in the order of the turns. -/
def begun : List Actor → Pool → List (Nat × Intent)
  | [], _ => []
  | actor :: schedule, p => (begins actor p).toList ++ begun schedule (step actor p)

end Pool

end DumpArchive.Dump
