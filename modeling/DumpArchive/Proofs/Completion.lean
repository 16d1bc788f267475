import DumpArchive.Proofs.Rounds
import DumpArchive.Proofs.DumpWorkers

/-! A dump comes to its end, whatever its sources are. Every turn of somebody who need not wait does
some of the work, and while anything is left to do there is somebody who need not. -/
namespace DumpArchive.Dump

open Multiplexer (Exchange Traffic Handle Heads)
open Token (Reader)

/-- What is left to do for a worker. A record of five bytes or more is posted, handled and
answered. -/
def Worker.cost (w : Worker) : Nat :=
  match w.stage with
  | .opening intent => intent.bytes + 6
  | .reading reader => reader.remaining + 5
  | .waiting reader => reader.remaining + 6
  | .checking => 4
  | .choosing => 3
  | .attaching next => next.bytes + 9
  | .closing (some (next, _)) => next.bytes + 8
  | .closing none => 2
  | .unwinding _ => 3
  | .failing _ => 1
  | .done _ => 0

/-- An engine that runs has yet to stop. -/
def engineCost (x : Exchange) : Nat :=
  match x.phase with
  | .running => x.mailbox.length + 1
  | _ => x.mailbox.length

namespace Pool

def work (p : Pool) : Nat :=
  (p.queue.map (·.bytes + 7)).sum + (p.workers.map Worker.cost).sum + engineCost p.exchange

/-- Who can go on: a running engine that has an event or nobody registered, and a worker that is
neither done nor waiting for an acknowledgement. -/
def Ready (actor : Actor) (p : Pool) : Prop :=
  match actor with
  | .engine => p.exchange.phase = .running ∧
    (p.exchange.engine.registry.entries = [] ∨ p.exchange.mailbox ≠ [])
  | .worker index => ∃ w, p.workers[index]? = some w ∧ w.isDone = false ∧ ¬ w.Waits p.exchange

def actors (p : Pool) : List Actor := .engine :: (List.range p.workers.length).map .worker

end Pool

variable {p : Pool} {t after : Traffic} {max : UInt64} {cap : Option UInt64} {base : Bytes}
  {records : Namespace → List Bytes} {w v : Worker} {namespaces first : List Namespace}
  {index : Nat} {queue : List Intent} {failed : Bool}

theorem bytes_eq {i : Intent} {source : Source} (max : UInt64) (origin : i.origin = .opens source) :
    i.bytes = (Reader.start source max).remaining := by
  rw [Intent.bytes, origin]
  rfl

theorem engineCost_eq {x y : Exchange} (phase : y.phase = x.phase) :
    engineCost y + x.mailbox.length = engineCost x + y.mailbox.length := by
  unfold engineCost
  rw [phase]
  split <;> omega

theorem Worker.Asks.cost (asks : w.Asks) : 3 < w.cost := by
  obtain ⟨index, ns, producer, stage⟩ := w
  rcases asks with ⟨_, rfl⟩ | ⟨_, rfl⟩ | ⟨_, rfl⟩ <;> simp only [Worker.cost] <;> omega

/-- A worker that does not rest does some of the work. -/
theorem Moved.work_lt (moved : Moved p t max w v queue failed after)
    (exchange : p.exchange = t.exchange) (found : p.workers[index]? = some w) :
    (⟨after.exchange, queue, failed, p.workers.set index v⟩ : Pool).work < p.work ∨
      (w.isDone ∨ w.Waits t.exchange) ∧ v = w ∧ queue = p.queue ∧ failed = p.failed ∧
        after = t := by
  have whole := sum_set Worker.cost v found
  simp only [Pool.work, exchange]
  cases moved with
  | rests waits => exact .inr ⟨waits, rfl, rfl, rfl, rfl⟩
  | breaks e asks =>
    left
    have least := asks.cost
    have unwinds : (w.enter (.unwinding e)).cost = 3 := rfl
    omega
  | begins origin =>
    left
    simp only [Worker.cost, bytes_eq max origin] at whole
    omega
  | posts read formed apart owed mailed =>
    left
    have cost := engineCost_eq apart.phase
    rw [mailed, List.length_append, List.length_singleton] at cost
    have long := formed.least
    have taken := congrArg List.length (Reader.took_of_nextRecord read).pending
    simp only [List.length_append, Record.minSize] at taken long
    simp only [Worker.cost, Reader.remaining] at whole
    omega
  | told apart free mailed =>
    left
    have cost := engineCost_eq apart.phase
    rw [mailed] at cost
    simp only [Worker.cost] at whole
    omega
  | takes queued =>
    left
    simp only [Worker.cost] at whole
    simp only [queued, List.map_cons, List.sum_cons]
    omega
  | attaches grown phase mailed =>
    left
    have cost := engineCost_eq phase
    rw [mailed] at cost
    simp only [Worker.cost] at whole
    omega
  | passes apart there released mailed =>
    left
    have cost := engineCost_eq apart.phase
    rw [mailed, List.length_append, List.length_singleton] at cost
    simp only [Worker.cost] at whole
    omega
  | closes apart there released mailed =>
    left
    have cost := engineCost_eq apart.phase
    rw [mailed, List.length_append, List.length_singleton] at cost
    simp only [Worker.cost] at whole
    omega
  | unwinds apart there released mailed =>
    left
    have cost := engineCost_eq apart.phase
    rw [mailed, List.length_append, List.length_singleton] at cost
    simp only [Worker.cost] at whole
    omega
  | _ =>
    left
    simp only [Worker.cost] at whole
    omega

/-- A turn of the engine handles an event or ends the run, unless the engine has to wait. -/
theorem engineCost_step (x : Exchange) : engineCost x.step < engineCost x ∨
    x.step = x ∧ ¬ (x.phase = .running ∧
      (x.engine.registry.entries = [] ∨ x.mailbox ≠ [])) := by
  unfold Exchange.step
  split
  · next running =>
    split
    · left
      simp [engineCost, running]
    · next somebody =>
      split
      · next empty =>
        exact .inr ⟨rfl, fun ready => by simp_all⟩
      · next event mailbox posted =>
        left
        split <;> simp only [engineCost, running, posted, List.length_cons] <;> omega
  · next idle => exact .inr ⟨rfl, fun ready => idle ready.1⟩

/-- The pool has a multiplexer in good order, whose handles are in the hands of its workers. All the
handles are for some of the namespaces, and the first of these have theirs. -/
def Works (max : UInt64) (cap : Option UInt64) (base : Bytes) (namespaces first : List Namespace)
    (p : Pool) : Prop :=
  ∃ t : Traffic, Crewed p t namespaces ∧ t.Steady max cap base ∧
    ∀ ns ∈ first, ns ∈ t.handles.map (·.ns)

theorem Works.step (heads : ∀ ns ∈ namespaces, Heads max ns)
    (works : Works max cap base namespaces first p) (actor : Pool.Actor) :
    Works max cap base namespaces first (p.step actor) ∧
      ((p.step actor).work < p.work ∨ p.step actor = p ∧ ¬ Pool.Ready actor p) := by
  obtain ⟨t, crewed, steady, held⟩ := works
  cases actor with
  | engine =>
    refine ⟨⟨t.turn, crewed.turn, steady.turn, by simpa using held⟩, ?_⟩
    rcases engineCost_step p.exchange with less | ⟨same, waits⟩
    · exact .inl (Nat.add_lt_add_left less _)
    · refine .inr ⟨?_, waits⟩
      simp only [Pool.step, same]
  | worker index =>
    cases found : p.workers[index]? with
    | none =>
      rw [Pool.step_of_none found]
      exact ⟨⟨t, crewed, steady, held⟩, .inr ⟨rfl, by simp [Pool.Ready, found]⟩⟩
    | some w =>
      obtain ⟨v, queue, failed, after, moved, still, turned⟩ :=
        crewed.moved steady heads (List.mem_of_getElem? found)
      rw [Pool.step_of_turn found turned]
      refine ⟨⟨after, crewed.work found moved, still, fun ns early => ?_⟩, ?_⟩
      · exact moved.grows (held ns early)
      rcases moved.work_lt crewed.exchange found with less | ⟨waits, rfl, rfl, rfl, rfl⟩
      · exact .inl less
      · refine .inr ⟨?_, ?_⟩
        · rw [set_same found, ← crewed.exchange]
        · rintro ⟨u, also, busy, ready⟩
          obtain rfl := Option.some.inj (found.symm.trans also)
          rcases waits with done | waits
          · simp [busy] at done
          · exact ready (crewed.exchange ▸ waits)

theorem Crewed.not_waits (crewed : Crewed p t namespaces) (steady : t.Steady max cap base)
    (member : w ∈ p.workers) (empty : t.exchange.mailbox = []) : ¬ w.Waits t.exchange := by
  rintro ⟨⟨reader, stage⟩, none⟩
  have post := crewed.posts w member
  unfold Worker.Post at post
  rw [stage] at post
  obtain ⟨record, written, manned⟩ := post
  rcases steady.collect manned with ⟨-, some⟩ | ⟨size, after, answered, -⟩
  · exact some empty
  · simp [answered] at none

/-- An engine that has begun to run stops well, and not before everybody has let go. -/
theorem Crewed.stopped_or_running (crewed : Crewed p t namespaces)
    (steady : t.Steady max cap base) : t.exchange.phase = .running ∨
      ∃ s, t.exchange.phase = .stopped (.ok s) ∧ t.outcomes = [.ok s] ∧
        t.exchange.engine.registry.entries = [] := by
  obtain ⟨wire, accounted, -⟩ := steady.books
  rcases steady.going with ⟨ready | running, -⟩ | ⟨s, stopped, one⟩
  · exact absurd ready crewed.ran
  · exact .inl running
  · exact .inr ⟨s, stopped, one, accounted.tracks.stopped (accounted.finished.2 (by simp [one]))⟩

theorem Works.ready (works : Works max cap base namespaces first p) (undone : ¬ p.isDone) :
    ∃ actor ∈ p.actors, Pool.Ready actor p := by
  obtain ⟨t, crewed, steady, -⟩ := works
  have turn : ∀ w ∈ p.workers, w.isDone = false → ¬ w.Waits t.exchange →
      ∃ actor ∈ p.actors, Pool.Ready actor p := by
    intro w member busy free
    obtain ⟨i, found⟩ := List.mem_iff_getElem?.1 member
    have bound := (List.getElem?_eq_some_iff.1 found).1
    exact ⟨.worker i, by simp [Pool.actors, bound], w, found, busy, crewed.exchange ▸ free⟩
  rcases crewed.stopped_or_running steady with running | ⟨s, stopped, -, nobody⟩
  · by_cases busy : t.exchange.engine.registry.entries = [] ∨ t.exchange.mailbox ≠ []
    · refine ⟨.engine, List.mem_cons_self .., ?_⟩
      simpa only [Pool.Ready, crewed.exchange] using ⟨running, busy⟩
    · -- the engine waits for a worker, and with an empty mailbox that one does not wait for it
      obtain ⟨somebody, empty⟩ := not_or.1 busy
      have empty : t.exchange.mailbox = [] := not_not.1 empty
      obtain ⟨⟨ns, number⟩, entry⟩ := List.exists_mem_of_ne_nil _ somebody
      obtain ⟨w, member, holds⟩ := crewed.hands.keeper steady entry empty
      refine turn w member ?_ (crewed.not_waits steady member empty)
      by_contra done
      have done : w.isDone = true := by simpa using done
      unfold Worker.isDone at done
      unfold Worker.held at holds
      split at done <;> simp_all
  · -- with the engine at rest nobody has a handle, so whoever is not done is about to be
    obtain ⟨w, member, busy⟩ : ∃ w ∈ p.workers, w.isDone = false := by
      simpa [Pool.isDone, crewed.exchange, stopped] using undone
    refine turn w member busy ?_
    rintro ⟨⟨reader, stage⟩, -⟩
    have idle := crewed.hands.held_eq_nil steady nobody member
    simp [Worker.held, stage] at idle

theorem workers_turn (w : Worker) (p : Pool) : (w.turn p).2.workers = p.workers := by
  unfold Worker.turn
  repeat' split
  all_goals rfl

theorem actors_step (actor : Pool.Actor) (p : Pool) : (p.step actor).actors = p.actors := by
  cases actor with
  | engine => rfl
  | worker index =>
    simp only [Pool.step]
    split
    · rfl
    · simp [Pool.actors, workers_turn]

theorem step_of_isDone (done : p.isDone) (actor : Pool.Actor) : p.step actor = p := by
  obtain ⟨stopped, all⟩ := by simpa [Pool.isDone] using done
  cases actor with
  | engine =>
    have rests : p.exchange.step = p.exchange := by
      unfold Exchange.step
      split <;> simp_all
    simp only [Pool.step, rests]
  | worker index =>
    cases found : p.workers[index]? with
    | none => exact Pool.step_of_none found
    | some w =>
      have past := all w (List.mem_of_getElem? found)
      have rests : w.turn p = (w, p) := by
        unfold Worker.isDone at past
        unfold Worker.turn
        split at past <;> simp_all
      simp [Pool.step, found, rests, set_same found]

/-- A dump advances round by round. -/
theorem advancing (cap : Option UInt64) (base : Bytes) (first : List Namespace)
    (heads : ∀ ns ∈ namespaces, Heads max ns)
    (actors : List Pool.Actor) :
    Advancing Pool.step actors
      (fun p => p.actors = actors ∧ Works max cap base namespaces first p)
      (·.isDone) Pool.Ready Pool.work where
  good actor p := fun ⟨same, works⟩ =>
    ⟨(actors_step actor p).trans same, (works.step heads actor).1⟩
  done actor p := fun _ done => (step_of_isDone done actor).symm ▸ done
  someone p := fun ⟨same, works⟩ undone => same ▸ works.ready undone
  advance actor p := by
    rintro ⟨-, works⟩ ready
    obtain ⟨-, less | ⟨-, waits⟩⟩ := works.step heads actor
    · exact less
    · exact absurd ready waits
  patient actor p := by
    rintro ⟨-, works⟩
    obtain ⟨-, less | ⟨same, -⟩⟩ := works.step heads actor
    · exact .inl less
    · rw [same]
      exact .inr ⟨rfl, fun _ ready => ready⟩

namespace Pool

theorem execute_eq_foldl (schedule : List Actor) (p : Pool) :
    p.execute schedule = schedule.foldl (fun p actor => p.step actor) p := by
  induction schedule generalizing p with
  | nil => rfl
  | cons actor rest ih => exact ih (p.step actor)

end Pool

theorem Works.isDone_of_rounds (heads : ∀ ns ∈ namespaces, Heads max ns)
    (works : Works max cap base namespaces first p) {schedule : List Pool.Actor}
    (enough : Rounds p.actors (p.work + 1) schedule) : (p.execute schedule).isDone := by
  rw [Pool.execute_eq_foldl]
  exact (advancing cap base first heads p.actors).done_of_rounds ⟨rfl, works⟩ enough

theorem actors_execute (schedule : List Pool.Actor) (p : Pool) :
    (p.execute schedule).actors = p.actors := by
  induction schedule generalizing p with
  | nil => rfl
  | cons actor rest ih => exact (ih (p.step actor)).trans (actors_step actor p)

/-- Settling a pool takes whole rounds until all is done. -/
theorem settleWithin_eq (fuel : Nat) (p : Pool) : ∃ schedule,
    p.settleWithin fuel = p.execute schedule ∧
      ((p.execute schedule).isDone ∨ Rounds p.actors fuel schedule) := by
  induction fuel generalizing p with
  | zero => exact ⟨[], rfl, .inr ⟨[], rfl, Nat.le_refl 0, by simp⟩⟩
  | succ fuel ih =>
    by_cases done : p.isDone
    · exact ⟨[], by simp [Pool.settleWithin, done, Pool.execute], .inl done⟩
    · obtain ⟨schedule, settled, ends⟩ := ih p.round
      have later : p.execute (p.actors ++ schedule) = p.round.execute schedule := by
        simp only [Pool.execute_eq_foldl, List.foldl_append]
        rw [Pool.round, Pool.execute_eq_foldl]
        rfl
      have actors : p.round.actors = p.actors := actors_execute _ p
      refine ⟨p.actors ++ schedule, ?_, ?_⟩
      · simp only [Pool.settleWithin, done, later]
        exact settled
      · rw [later]
        rcases ends with ends | ⟨rounds, rfl, many, full⟩
        · exact .inl ends
        · refine .inr ⟨p.actors :: rounds, rfl, Nat.succ_le_succ many, ?_⟩
          rw [actors] at full
          exact List.forall_mem_cons.2 ⟨fun actor member => member, full⟩

/-- A turn of a worker takes the intent that it begins from those that have not been begun. -/
theorem Worked.pending (worked : Worked p t max records w v queue after)
    (found : p.workers[index]? = some w) :
    ((Pool.begins (.worker index) p).toList.map (·.2) ++
      (⟨after.exchange, queue, p.failed, p.workers.set index v⟩ : Pool).pending).Perm
      p.pending := by
  simp only [Pool.pending, ← List.append_assoc]
  refine perm_trade found ?_
  cases worked with
  | rests waits =>
    obtain ⟨i, ns, producer, stage⟩ := w
    cases stage <;> simp_all [Pool.begins, Worker.isDone, Worker.Waits]
  | begins origin before manned =>
    simpa [Pool.begins, found, Worker.assigned] using (List.perm_append_singleton ..).symm
  | takes queued manned => simp [Pool.begins, found, Worker.assigned, queued]
  | _ => simp [Pool.begins, found, Worker.assigned]

theorem Duty.post (duty : Duty t max records w) : w.Post t := by
  cases duty with
  | waiting before split manned => exact ⟨_, _, manned⟩
  | passing gives apart manned fresh => exact ⟨apart, ⟨_, manned⟩, ⟨_, fresh⟩⟩
  | done => trivial
  | _ => exact ⟨_, ‹_›⟩

theorem Staffed.crewed (staffed : Staffed p t max records namespaces) :
    Crewed p t namespaces where
  exchange := staffed.exchange
  ran := staffed.ran
  posts w member := (staffed.duties w member).post
  hands := staffed.hands
  opened _ member :=
    staffed.known.mem_iff.1 (List.mem_append_left _ (List.mem_map_of_mem member))
  unopened _ waits :=
    staffed.known.mem_iff.1 (List.mem_append_right _ (List.mem_map_of_mem waits))

/-- The pool has a multiplexer in good order, and so do its workers. -/
def Runs (max : UInt64) (base : Bytes) (records : Namespace → List Bytes)
    (namespaces : List Namespace) (p : Pool) : Prop :=
  ∃ t : Traffic, Staffed p t max records namespaces ∧ t.Steady max none base

theorem Runs.works (runs : Runs max base records namespaces p) :
    Works max none base namespaces [] p := by
  obtain ⟨t, staffed, steady⟩ := runs
  exact ⟨t, staffed.crewed, steady, by simp⟩

theorem Runs.step (legible : Legible max records namespaces) (distinct : namespaces.Nodup)
    (heads : ∀ ns ∈ namespaces, Heads max ns) (runs : Runs max base records namespaces p)
    (actor : Pool.Actor) :
    Runs max base records namespaces (p.step actor) ∧
      ((Pool.begins actor p).toList.map (·.2) ++ (p.step actor).pending).Perm p.pending := by
  obtain ⟨t, staffed, steady⟩ := runs
  cases actor with
  | engine => exact ⟨⟨t.turn, staffed.turn, steady.turn⟩, .refl _⟩
  | worker index =>
    cases found : p.workers[index]? with
    | none =>
      rw [Pool.step_of_none found]
      exact ⟨⟨t, staffed, steady⟩, by simp [Pool.begins, found]⟩
    | some w =>
      obtain ⟨v, queue, after, worked, still, turned⟩ :=
        staffed.worked legible steady distinct heads (List.mem_of_getElem? found)
      rw [Pool.step_of_turn found turned]
      exact ⟨⟨after, staffed.work found worked, still⟩, worked.pending found⟩

/-- A worker at work is registered. -/
theorem Staffed.done_of_nobody (staffed : Staffed p t max records namespaces)
    (steady : t.Steady max none base) (nobody : t.exchange.engine.registry.entries = [])
    (member : w ∈ p.workers) : w.stage = .done (.ok ()) := by
  have idle := staffed.hands.held_eq_nil steady nobody member
  cases staffed.duties w member with
  | done => rfl
  | _ => simp [Worker.held] at idle

/-- Once the engine has stopped everybody is done. -/
theorem Staffed.isDone_iff (staffed : Staffed p t max records namespaces)
    (steady : t.Steady max none base) : p.isDone ↔ ∃ s, p.exchange.phase = .stopped (.ok s) := by
  rw [staffed.exchange]
  rcases staffed.crewed.stopped_or_running steady with running | ⟨s, stopped, -, nobody⟩
  · simp [Pool.isDone, staffed.exchange, running]
  · have all : p.workers.all Worker.isDone = true := by
      apply List.all_eq_true.2
      intro w member
      rw [Worker.isDone, staffed.done_of_nobody steady nobody member]
    simp [Pool.isDone, staffed.exchange, stopped, all]

namespace Pool

/-- Nobody fails to open a namespace or has failed otherwise, and the registry becomes empty only
when nothing is left to do. -/
structure Orderly (p : Pool) : Prop where
  opens : ∀ w ∈ p.workers, ∀ next, w.stage = .attaching next →
    ∃ number x, p.exchange.open? next.ns = .ok (number, x)
  calm : ∀ w ∈ p.workers, ∀ e, w.stage ≠ .unwinding e ∧ w.stage ≠ .failing e ∧
    w.stage ≠ .done (.error e)
  last : p.exchange.engine.registry.entries = [] →
    p.queue = [] ∧ ∀ w ∈ p.workers, w.stage = .done (.ok ())

end Pool

theorem Staffed.queue_eq_nil (staffed : Staffed p t max records namespaces)
    (past : ∀ w ∈ p.workers, w.stage = .done (.ok ())) : p.queue = [] := by
  by_contra some
  obtain ⟨somebody, busy⟩ := staffed.last some
  obtain ⟨w, member⟩ := List.exists_mem_of_ne_nil _ somebody
  have undone := (busy w member).2
  simp [Worker.isDone, past w member] at undone

theorem Runs.orderly (distinct : namespaces.Nodup) (heads : ∀ ns ∈ namespaces, Heads max ns)
    (runs : Runs max base records namespaces p) : p.Orderly := by
  obtain ⟨t, staffed, steady⟩ := runs
  refine ⟨?_, ?_, ?_⟩
  · intro w member next stage
    have duty := staffed.duties w member
    cases duty with
    | attaching named gives manned =>
      obtain rfl := Stage.attaching.inj stage
      obtain ⟨after, opened, -⟩ :=
        staffed.register steady distinct heads member rfl named manned
      exact ⟨_, _, staffed.exchange ▸ opened⟩
    | _ => contradiction
  · intro w member e
    cases staffed.duties w member <;> simp
  · intro nobody
    rw [staffed.exchange] at nobody
    have past : ∀ w ∈ p.workers, w.stage = .done (.ok ()) :=
      fun w member => staffed.done_of_nobody steady nobody member
    exact ⟨staffed.queue_eq_nil past, past⟩

/-- Whatever the order of the turns, the workers stay in good order, and no intent is lost or begun
twice. -/
theorem Runs.execute (legible : Legible max records namespaces) (distinct : namespaces.Nodup)
    (heads : ∀ ns ∈ namespaces, Heads max ns) (runs : Runs max base records namespaces p)
    (schedule : List Pool.Actor) :
    Runs max base records namespaces (p.execute schedule) ∧
      ((Pool.begun schedule p).map (·.2) ++ (p.execute schedule).pending).Perm p.pending := by
  induction schedule generalizing p with
  | nil => exact ⟨runs, .refl _⟩
  | cons actor rest ih =>
    obtain ⟨next, taken⟩ := runs.step legible distinct heads actor
    obtain ⟨still, others⟩ := ih next
    refine ⟨still, ?_⟩
    simp only [Pool.begun, Pool.execute, List.map_append, List.append_assoc]
    exact (others.append_left _).trans taken

end DumpArchive.Dump
