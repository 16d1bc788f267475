import DumpArchive.Proofs.Completion

/-! A source that cannot be dumped makes the whole dump fail. Its intent is in the queue or with a
worker until one fails over it, and as long as nobody has failed the queue is not given up. -/
namespace DumpArchive.Dump

open Multiplexer (Traffic Heads)
open Token (Reader)

variable {p : Pool} {t after : Traffic} {max : UInt64} {cap : Option UInt64} {base : Bytes}
  {w v : Worker} {namespaces first : List Namespace} {index : Nat} {queue : List Intent}
  {failed : Bool}

/-- Either there is no source, or it cannot be read to its end. -/
def Intent.Barren (max : UInt64) (i : Intent) : Prop :=
  ∀ source, i.origin = .opens source → ¬ (Reader.start source max).Drains max

namespace Worker

/-- A worker that has failed. -/
def Troubled (w : Worker) : Prop :=
  match w.stage with
  | .unwinding _ => True
  | .failing _ => True
  | .done (.error _) => True
  | _ => False

/-- A worker that has failed or will. -/
def Doomed (max : UInt64) (w : Worker) : Prop :=
  match w.stage with
  | .opening intent => intent.Barren max
  | .reading reader => ¬ reader.Drains max
  | .waiting reader => ¬ reader.Drains max
  | .attaching next => next.Barren max
  | .closing (some (next, _)) => next.Barren max
  | _ => w.Troubled

/-- A worker that takes no further intent although nothing has happened to it. -/
def Leaves (w : Worker) : Prop := w.stage = .closing none ∨ w.stage = .done (.ok ())

theorem Troubled.error (troubled : w.Troubled) (done : w.isDone) :
    ∃ e, w.stage = .done (.error e) := by
  obtain ⟨index, ns, producer, stage⟩ := w
  cases stage with
  | done result =>
    cases result with
    | error e => exact ⟨e, rfl⟩
    | ok => exact False.elim troubled
  | _ => contradiction

theorem troubled_or_leaves (done : w.isDone) : w.Troubled ∨ w.Leaves := by
  obtain ⟨index, ns, producer, stage⟩ := w
  cases stage with
  | done result =>
    cases result with
    | error e => exact .inl trivial
    | ok => exact .inr (.inr rfl)
  | _ => contradiction

theorem Doomed.troubled (doomed : w.Doomed max) (done : w.isDone) : w.Troubled := by
  obtain ⟨index, ns, producer, stage⟩ := w
  cases stage with
  | done result => exact doomed
  | _ => contradiction

end Worker

namespace Moved

theorem troubled (moved : Moved p t max w v queue failed after) (troubled : w.Troubled) :
    v.Troubled := by
  cases moved with
  | rests => exact troubled
  | unwinds => trivial
  | fails => trivial
  | breaks => trivial
  | _ => exact False.elim troubled

/-- Whoever is bound to fail stays so: what it reads does not become readable. -/
theorem doomed (moved : Moved p t max w v queue failed after) (doomed : w.Doomed max) :
    v.Doomed max := by
  cases moved with
  | rests => exact doomed
  | breaks => trivial
  | begins origin => exact doomed _ origin
  | posts read formed => exact fun drains => doomed (.more read formed drains)
  | told => exact doomed
  | ends read => exact absurd (.done read) doomed
  | attaches => exact doomed
  | passes => exact doomed
  | unwinds => trivial
  | fails => trivial
  | _ => exact False.elim doomed

/-- An intent leaves the queue for the hands of a worker. -/
theorem queued (moved : Moved p t max w v queue failed after) :
    queue = p.queue ∨ ∃ next, p.queue = next :: queue ∧ (next.Barren max → v.Doomed max) := by
  cases moved with
  | takes queued => exact .inr ⟨_, queued, id⟩
  | _ => exact .inl rfl

/-- A worker that has not failed tells nobody of a failure, and leaves only if it knows of one or
finds no more to do. -/
theorem calm (moved : Moved p t max w v queue failed after) (calm : ¬ v.Troubled)
    (unaware : p.failed = false) (stays : queue ≠ [] → ¬ w.Leaves) :
    failed = false ∧ (queue ≠ [] → ¬ v.Leaves) := by
  cases moved with
  | rests => exact ⟨unaware, stays⟩
  | heeds known => simp [unaware] at known
  | leaves empty => exact ⟨unaware, fun some => absurd empty some⟩
  | closes => exact ⟨unaware, fun some => absurd (.inl rfl) (stays some)⟩
  | fails => exact absurd trivial calm
  | breaks => exact absurd trivial calm
  | _ => exact ⟨unaware, fun _ => by simp [Worker.Leaves]⟩

end Moved

namespace Pool

/-- Nobody has failed so far, but somebody will: an intent that cannot be dumped is with a worker or
in the queue, and everybody stays for the queue. -/
structure Fated (max : UInt64) (p : Pool) : Prop where
  unaware : p.failed = false
  stays : p.queue ≠ [] → ∀ w ∈ p.workers, ¬ w.Leaves
  bound : (∃ i ∈ p.queue, i.Barren max) ∨ ∃ w ∈ p.workers, w.Doomed max

/-- Somebody has failed, or will. -/
structure Lost (max : UInt64) (p : Pool) : Prop where
  staffed : p.workers ≠ []
  fate : (∃ w ∈ p.workers, w.Troubled) ∨ p.Fated max

theorem Fated.work (fated : p.Fated max) (found : p.workers[index]? = some w)
    (moved : Moved p t max w v queue failed after) :
    v.Troubled ∨ Fated max ⟨after.exchange, queue, failed, p.workers.set index v⟩ := by
  by_cases troubled : v.Troubled
  · exact .inl troubled
  right
  have member := List.mem_of_getElem? found
  have new : v ∈ p.workers.set index v :=
    List.mem_set (List.getElem?_eq_some_iff.1 found).1 v
  have more : queue ≠ [] → p.queue ≠ [] := by
    intro some
    rcases moved.queued with rfl | ⟨next, split, -⟩
    · exact some
    · simp [split]
  obtain ⟨unaware, stays⟩ :=
    moved.calm troubled fated.unaware fun some => fated.stays (more some) w member
  refine ⟨unaware, ?_, ?_⟩
  · intro some u there
    rcases List.mem_or_eq_of_mem_set there with old | rfl
    · exact fated.stays (more some) u old
    · exact stays some
  · rcases fated.bound with ⟨i, waits, barren⟩ | doomed
    · rcases moved.queued with rfl | ⟨next, split, taken⟩
      · exact .inl ⟨i, waits, barren⟩
      · rw [split] at waits
        rcases List.mem_cons.1 waits with rfl | later
        · exact .inr ⟨v, new, taken barren⟩
        · exact .inl ⟨i, later, barren⟩
    · exact .inr (exists_mem_set found moved.doomed doomed)

theorem Lost.work (lost : p.Lost max) (found : p.workers[index]? = some w)
    (moved : Moved p t max w v queue failed after) :
    Lost max ⟨after.exchange, queue, failed, p.workers.set index v⟩ := by
  have new : v ∈ p.workers.set index v :=
    List.mem_set (List.getElem?_eq_some_iff.1 found).1 v
  refine ⟨List.ne_nil_of_mem new, ?_⟩
  rcases lost.fate with troubled | fated
  · exact .inl (exists_mem_set found moved.troubled troubled)
  · exact (fated.work found moved).imp_left fun troubled => ⟨v, new, troubled⟩

end Pool

theorem Works.lost_step (heads : ∀ ns ∈ namespaces, Heads max ns)
    (works : Works max cap base namespaces first p) (lost : p.Lost max) (actor : Pool.Actor) :
    (p.step actor).Lost max := by
  obtain ⟨t, crewed, steady, -⟩ := works
  cases actor with
  | engine => exact ⟨lost.staffed, lost.fate.imp_right fun fated => ⟨fated.1, fated.2, fated.3⟩⟩
  | worker index =>
    cases found : p.workers[index]? with
    | none => rwa [Pool.step_of_none found]
    | some w =>
      obtain ⟨v, queue, failed, after, moved, -, turned⟩ :=
        crewed.moved steady heads (List.mem_of_getElem? found)
      rw [Pool.step_of_turn found turned]
      exact lost.work found moved

theorem Works.execute (heads : ∀ ns ∈ namespaces, Heads max ns)
    (works : Works max cap base namespaces first p) (schedule : List Pool.Actor) :
    Works max cap base namespaces first (p.execute schedule) := by
  induction schedule generalizing p with
  | nil => exact works
  | cons actor rest ih => exact ih (works.step heads actor).1

theorem Works.lost_execute (heads : ∀ ns ∈ namespaces, Heads max ns)
    (works : Works max cap base namespaces first p) (lost : p.Lost max)
    (schedule : List Pool.Actor) : (p.execute schedule).Lost max := by
  induction schedule generalizing p with
  | nil => exact lost
  | cons actor rest ih => exact ih (works.step heads actor).1 (works.lost_step heads lost actor)

namespace Pool

/-- When all are done somebody has failed. -/
theorem Lost.troubled (lost : p.Lost max) (done : ∀ w ∈ p.workers, w.isDone) :
    ∃ w ∈ p.workers, w.Troubled := by
  rcases lost.fate with troubled | fated
  · exact troubled
  rcases fated.bound with ⟨i, waits, -⟩ | ⟨w, member, doomed⟩
  · -- whoever is done without having failed has left, and nobody leaves before the queue is empty
    obtain ⟨w, member⟩ := List.exists_mem_of_ne_nil _ lost.staffed
    have stays := fated.stays (List.ne_nil_of_mem waits) w member
    exact ⟨w, member, (Worker.troubled_or_leaves (done w member)).resolve_right stays⟩
  · exact ⟨w, member, doomed.troubled (done w member)⟩

theorem Lost.error (lost : p.Lost max) (done : p.isDone) : ∃ e, p.result = .error e := by
  obtain ⟨stopped, all⟩ := by simpa [isDone] using done
  obtain ⟨w, member, troubled⟩ := lost.troubled all
  obtain ⟨e, stage⟩ := troubled.error (all w member)
  unfold result
  split
  · exact ⟨_, rfl⟩
  · split
    · exact ⟨_, rfl⟩
    · next silent =>
      have fine := List.findSome?_eq_none_iff.1 silent w member
      simp [Worker.result, stage] at fine
  · next failure success =>
    split at stopped
    · next verdict same =>
      cases verdict with
      | error e => exact absurd same (failure e)
      | ok s => exact absurd same (success s)
    · contradiction

end Pool
end DumpArchive.Dump
