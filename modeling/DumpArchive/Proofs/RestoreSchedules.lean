import DumpArchive.Proofs.EngineSteps
import DumpArchive.Proofs.Restoring
import DumpArchive.Proofs.Rounds
import DumpArchive.Restore.Pool

/-! A restore over any order of turns. Its engine and its workers wait for each other where a record
is handed over and share nothing else, so every order in which all come to their end comes to what
`Restore.restore` does, and in every fair order they do. -/
namespace DumpArchive
namespace Restore

open Demultiplexer (Sealed drive)

variable {d e : Demultiplexer} {labels : List (Namespace × Nat)} {i : Intent} {w v : Worker}
  {list : List Worker} {number index : Nat} {record : Bytes} {t u : Thread} {p : Pool}
  {intents : List Intent} {a : Archive} {final : Demultiplexer × List Worker} {actor : Pool.Actor}

/-- What becomes of the workers when the engine has stopped. -/
def dismiss (engine : Demultiplexer) (list : List Worker) : List Worker :=
  list.map fun w => w.conclude (engine.signal w.outlet)

theorem label_take (record : Bytes) (w : Worker) : (w.take record).2.label = w.label := by
  unfold Worker.take
  split
  · rfl
  · split <;> rfl

theorem outlet_conclude (signal : Signal) (w : Worker) : (w.conclude signal).outlet = w.outlet := by
  unfold Worker.conclude
  split
  · rfl
  · split <;> rfl
  · rfl

theorem take_calm (calm : w.trouble = none) (record : Bytes) : (w.take record).1 = true := by
  simp only [Worker.take, calm]
  split <;> rfl

/-- Where outlets have their own numbers a record goes to the worker of its number. -/
theorem offer_eq (numbers : (list.map (·.outlet)).Nodup) (found : list[index]? = some w) :
    offer w.outlet record list = ((w.take record).1, list.set index (w.take record).2) := by
  induction list generalizing index with
  | nil => simp at found
  | cons first rest ih =>
    obtain ⟨single, numbers⟩ := List.nodup_cons.1 numbers
    cases index with
    | zero =>
      obtain rfl := Option.some.inj found
      simp only [offer, if_true, List.set_cons_zero]
    | succ index =>
      have found : rest[index]? = some w := by simpa using found
      have apart : first.outlet ≠ w.outlet := fun same =>
        single (List.mem_map.2 ⟨w, List.mem_of_getElem? found, same.symm⟩)
      simp only [offer, apart, if_false, ih numbers found, List.set_cons_succ]

/-- Workers in trouble take nothing and stay what they are. -/
theorem offer_refused (troubled : ∀ w ∈ list, w.outlet = number → w.trouble ≠ none) :
    offer number record list = (false, list) := by
  induction list with
  | nil => rfl
  | cons first rest ih =>
    obtain ⟨here, others⟩ := List.forall_mem_cons.1 troubled
    by_cases mine : first.outlet = number
    · obtain ⟨trouble, blamed⟩ := Option.ne_none_iff_exists'.1 (here mine)
      simp only [offer, mine, if_true, Worker.take, blamed]
    · simp only [offer, mine, if_false, ih others]

/-- A thread and the worker that has been given all that the thread has taken: it may have opened
its destination and stored its record already. One that is done has found trouble, or has been told
how its namespace came to its end. -/
inductive Stands (d : Demultiplexer) : Thread → Worker → Prop
  | opening (i : Intent) (number : Nat) : Stands d (.opening i number) (.begin i number)
  | waiting {w : Worker} : w.trouble = none → Stands d (.waiting w) w
  | storing {w : Worker} {record : Bytes} : w.trouble = none →
    Stands d (.storing record w) (w.take record).2
  | troubled {w : Worker} : w.trouble ≠ none → Stands d (.done w) w
  | told {w : Worker} : d.signal w.outlet ≠ .live → Stands d (.done (w.conclude (d.signal w.outlet))) w

theorem Stands.outlet (stands : Stands d t w) : w.outlet = t.outlet := by
  cases stands with
  | opening i number => exact congrArg Prod.snd (label_begin i number)
  | waiting => rfl
  | storing => exact congrArg Prod.snd (label_take _ _)
  | troubled => rfl
  | told => exact (outlet_conclude _ _).symm

/-- Nobody who has been told is told anything else. -/
theorem Stands.mono (stands : Stands d t w)
    (same : d.signal w.outlet ≠ .live → e.signal w.outlet = d.signal w.outlet) : Stands e t w := by
  cases stands with
  | opening i number => exact .opening i number
  | waiting calm => exact .waiting calm
  | storing calm => exact .storing calm
  | troubled troubled => exact .troubled troubled
  | told past =>
    rw [← same past]
    exact .told (same past ▸ past)

theorem stands_proceed (d : Demultiplexer) (w : Worker) : Stands d (Thread.proceed w) w := by
  unfold Thread.proceed
  split
  · next calm => exact .waiting calm
  · next trouble => exact .troubled (by simp [trouble])

/-- What a thread that is done comes to when the engine has stopped. -/
theorem Stands.worker (stands : Stands d t w) (done : t.isDone) :
    t.worker = w.conclude (d.signal w.outlet) := by
  cases stands with
  | opening => simp [Thread.isDone] at done
  | waiting => simp [Thread.isDone] at done
  | storing => simp [Thread.isDone] at done
  | troubled troubled =>
    obtain ⟨trouble, blamed⟩ := Option.ne_none_iff_exists'.1 troubled
    simp only [Thread.worker, Worker.conclude, blamed]
  | told => rfl

/-- The engine is at work for whoever has a label, and run to its stop with the workers for whom the
threads stand it comes to `final`. -/
structure Follows (labels : List (Namespace × Nat)) (final : Demultiplexer × List Worker)
    (p : Pool) : Prop where
  numbers : (labels.map (·.2)).Nodup
  shut : p.engine.Sealed labels
  stand : ∃ list, List.Forall₂ (Stands p.engine) p.threads list ∧ list.map Worker.label = labels ∧
    drive workers p.engine list = final

theorem signal_step (shut : d.Sealed labels) {l : Namespace × Nat} (member : l ∈ labels)
    (told : d.signal l.2 ≠ .live) : d.step.signal l.2 = d.signal l.2 := by
  cases signal : d.signal l.2 with
  | live => exact absurd signal told
  | ended =>
    exact Demultiplexer.signal_eq_ended_iff.2
      (Demultiplexer.mem_ended_step (Demultiplexer.signal_eq_ended_iff.1 signal))
  | gone =>
    obtain ⟨result, stopped⟩ := (shut.signal member).1 signal
    have rests : d.step = d := by simp only [Demultiplexer.step, stopped]
    rw [rests, signal]

theorem signal_resolve (shut : d.Sealed labels) (taken : Bool) {l : Namespace × Nat}
    (member : l ∈ labels) (told : d.signal l.2 ≠ .live) :
    (d.resolve taken).signal l.2 = d.signal l.2 := by
  cases signal : d.signal l.2 with
  | live => exact absurd signal told
  | ended =>
    rw [Demultiplexer.signal_eq_ended_iff, (Demultiplexer.roster_resolve taken d).2]
    exact Demultiplexer.signal_eq_ended_iff.1 signal
  | gone =>
    obtain ⟨result, stopped⟩ := (shut.signal member).1 signal
    rw [Demultiplexer.resolve_of_ne taken (by simp [stopped]), signal]

/-- The threads stand for the same workers beside an engine that tells nobody anything else. -/
theorem stand_mono {threads : List Thread}
    (stand : List.Forall₂ (Stands d) threads list)
    (same : ∀ l ∈ list.map Worker.label, d.signal l.2 ≠ .live → e.signal l.2 = d.signal l.2) :
    List.Forall₂ (Stands e) threads list := by
  rw [List.forall₂_iff_zip] at stand ⊢
  refine ⟨stand.1, fun {t w} pair => ?_⟩
  exact (stand.2 pair).mono (same _ (List.mem_map_of_mem (List.of_mem_zip pair).2))

/-- A record on offer to a thread that is done finds a worker in trouble. -/
theorem Stands.refuses (stands : Stands d t w) (done : t.isDone) {ns : Namespace}
    (shut : d.Sealed labels) (stage : d.stage = .offering ns w.outlet record) :
    w.trouble ≠ none := by
  cases stands with
  | opening => simp [Thread.isDone] at done
  | waiting => simp [Thread.isDone] at done
  | storing => simp [Thread.isDone] at done
  | troubled troubled => exact troubled
  | told past =>
    have entry := shut.offering _ _ _ stage
    cases signal : d.signal w.outlet with
    | live => exact absurd signal past
    | ended =>
      exact absurd (Demultiplexer.signal_eq_ended_iff.1 signal) (shut.past _ _ entry)
    | gone =>
      obtain ⟨result, stopped⟩ := (shut.signal (shut.routes _ _ entry)).1 signal
      simp [stopped] at stage

theorem Follows.turn (follows : Follows labels final p) : Follows labels final p.turn := by
  obtain ⟨numbers, shut, list, stand, rfl, driven⟩ := follows
  have moves (busy : p.engine.stage = .reading ∨ ∃ result, p.engine.stage = .ending result) :
      Follows (list.map Worker.label) final { p with engine := p.engine.step } :=
    ⟨numbers, shut.step numbers, list,
      stand_mono stand fun l member => signal_step shut member, rfl,
      (Demultiplexer.drive_step Demultiplexer.still_workers busy list) ▸ driven⟩
  unfold Pool.turn
  split
  · next ns number record stage =>
    split
    · exact ⟨numbers, shut, list, stand, rfl, driven⟩
    · next nobody =>
      have refused : offer number record list = (false, list) := by
        apply offer_refused
        intro w member mine
        obtain ⟨index, bound, rfl⟩ := List.getElem_of_mem member
        have place : index < p.threads.length := by rwa [stand.length_eq]
        have stands := List.Forall₂.get stand place bound
        simp only [List.get_eq_getElem] at stands
        refine stands.refuses ?_ shut (mine ▸ stage)
        have idle : ∀ t ∈ p.threads, t.outlet = number → t.isDone := by
          simpa [Pool.attends] using nobody
        exact idle _ (List.getElem_mem place) (stands.outlet ▸ mine)
      have handed : workers.offer number record p.engine.roster list =
          (false, p.engine.roster, list) := by
        simp only [workers, refused]
      refine ⟨numbers, shut.resolve false stage, list,
        stand_mono stand fun l member => signal_resolve shut false member, rfl, ?_⟩
      rw [← driven, Demultiplexer.drive_offering Demultiplexer.still_workers stage handed]
  · next other =>
    cases stage : p.engine.stage with
    | reading => exact moves (.inl stage)
    | ending result => exact moves (.inr ⟨result, stage⟩)
    | offering ns number record => exact absurd stage (other ns number record)
    | idle => exact absurd stage shut.begun
    | stopped result =>
      have rests : p.engine.step = p.engine := by simp only [Demultiplexer.step, stage]
      rw [rests]
      exact ⟨numbers, shut, list, stand, rfl, driven⟩

theorem stands_listen (calm : w.trouble = none) : Stands d (.listen d w) w := by
  have told (past : d.signal w.outlet ≠ .live) :
      Stands d (.done (w.conclude (d.signal w.outlet))) w := .told past
  cases signal : d.signal w.outlet with
  | live => simpa only [Thread.listen, signal] using .waiting calm
  | ended => simpa [Thread.listen, signal] using told
  | gone => simpa [Thread.listen, signal] using told

/-- A turn of a thread leaves the engine alone, or takes the record on offer. -/
theorem Stands.turn (stands : Stands d t w) :
    (t.turn d).1 = d ∧ Stands d (t.turn d).2 w ∨
      ∃ ns record, w.trouble = none ∧ d.stage = .offering ns w.outlet record ∧
        t.turn d = (d.resolve true, .storing record w) := by
  cases stands with
  | opening i number => exact .inl ⟨rfl, stands_proceed d (.begin i number)⟩
  | storing calm => exact .inl ⟨rfl, stands_proceed d _⟩
  | troubled troubled => exact .inl ⟨rfl, .troubled troubled⟩
  | told past => exact .inl ⟨rfl, .told past⟩
  | waiting calm =>
    have waits := stands_listen (d := d) calm
    cases stage : d.stage with
    | offering ns number record =>
      by_cases mine : number = w.outlet
      · subst mine
        exact .inr ⟨ns, record, calm, rfl, by simp only [Thread.turn, stage, if_true]⟩
      · have rests : Thread.turn d (.waiting w) = (d, .listen d w) := by
          simp only [Thread.turn, stage, mine, if_false]
        exact .inl (rests ▸ ⟨rfl, waits⟩)
    | _ =>
      have rests : Thread.turn d (.waiting w) = (d, .listen d w) := by
        simp only [Thread.turn, stage]
      exact .inl (rests ▸ ⟨rfl, waits⟩)

theorem Follows.step (follows : Follows labels final p) (actor : Pool.Actor) :
    Follows labels final (p.step actor) := by
  cases actor with
  | engine => exact follows.turn
  | worker index =>
    cases found : p.threads[index]? with
    | none => simpa only [Pool.step, found] using follows
    | some t =>
      have goes : p.step (.worker index) = ⟨(t.turn p.engine).1, p.threads.set index (t.turn p.engine).2⟩ := by
        simp only [Pool.step, found]
      obtain ⟨numbers, shut, list, stand, rfl, driven⟩ := follows
      obtain ⟨bound, rfl⟩ := List.getElem?_eq_some_iff.1 found
      have place : index < list.length := stand.length_eq ▸ bound
      have mine : list[index]? = some list[index] := List.getElem?_eq_getElem place
      have stands : Stands p.engine p.threads[index] list[index] := List.Forall₂.get stand bound place
      rw [goes]
      rcases stands.turn with ⟨same, stays⟩ | ⟨ns, record, calm, stage, takes⟩
      · rw [same]
        exact ⟨numbers, shut, list, set_same mine ▸ forall₂_set stand stays index, rfl, driven⟩
      · have outlets : (list.map (·.outlet)).Nodup := by
          simpa [Worker.label, Function.comp_def] using numbers
        have offered : offer list[index].outlet record list = ((list[index].take record).1,
            list.set index (list[index].take record).2) := offer_eq outlets mine
        rw [take_calm calm] at offered
        have handed : workers.offer list[index].outlet record p.engine.roster list =
            (true, p.engine.roster, list.set index (list[index].take record).2) := by
          simp only [workers, offered]
        have others := stand_mono stand fun l member => signal_resolve shut true member
        rw [takes]
        refine ⟨numbers, shut.resolve true stage, list.set index (list[index].take record).2,
          forall₂_set others (.storing calm) index, map_set_same mine (label_take record _), ?_⟩
        rw [← driven, Demultiplexer.drive_offering Demultiplexer.still_workers stage handed]

theorem Follows.execute (follows : Follows labels final p) (schedule : List Pool.Actor) :
    Follows labels final (p.execute schedule) := by
  induction schedule generalizing p with
  | nil => exact follows
  | cons actor rest ih => exact ih (follows.step actor)

theorem Pool.isDone_iff : p.isDone ↔
    (∃ result, p.engine.stage = .stopped result) ∧ ∀ t ∈ p.threads, t.isDone := by
  simp only [Pool.isDone, Bool.and_eq_true, List.all_eq_true]
  refine and_congr_left fun _ => ?_
  cases p.engine.stage <;> simp

theorem stand_dismiss {threads : List Thread} (stand : List.Forall₂ (Stands d) threads list)
    (done : ∀ t ∈ threads, t.isDone) : threads.map Thread.worker = dismiss d list := by
  induction stand with
  | nil => rfl
  | cons first rest ih =>
    obtain ⟨here, others⟩ := List.forall_mem_cons.1 done
    rw [List.map_cons, first.worker here, ih others]
    rfl

/-- A pool that is done has come to what `final` says. -/
theorem Follows.outcome (follows : Follows labels final p) (done : p.isDone) :
    p.outcome = (rootCause final.1.result (dismiss final.1 final.2), dismiss final.1 final.2) := by
  obtain ⟨numbers, shut, list, stand, rfl, driven⟩ := follows
  obtain ⟨past, idle⟩ := Pool.isDone_iff.1 done
  obtain ⟨result, stopped⟩ := past
  rw [Demultiplexer.drive_stopped Demultiplexer.still_workers stopped] at driven
  subst driven
  have same := stand_dismiss stand idle
  rw [Pool.outcome, same]

/-- What is left to do for a thread: to open its destination, to store a record, to be told. -/
def Thread.cost : Thread → Nat
  | .opening .. => 2
  | .storing .. => 2
  | .waiting _ => 1
  | .done _ => 0

def Pool.work (p : Pool) : Nat := 2 * p.engine.work + (p.threads.map Thread.cost).sum

theorem cost_proceed_le (w : Worker) : (Thread.proceed w).cost ≤ 1 := by
  unfold Thread.proceed
  split <;> simp [Thread.cost]

/-- A thread that need not wait does some of the work by its turn. -/
theorem cost_turn_lt (busy : t.isDone = false)
    (free : ∀ w, t = .waiting w →
      (∃ ns record, d.stage = .offering ns w.outlet record) ∨ d.signal w.outlet ≠ .live) :
    2 * (t.turn d).1.work + (t.turn d).2.cost < 2 * d.work + t.cost := by
  cases t with
  | done w => simp [Thread.isDone] at busy
  | opening i number => exact Nat.add_lt_add_left (Nat.lt_succ_of_le (cost_proceed_le _)) _
  | storing record w => exact Nat.add_lt_add_left (Nat.lt_succ_of_le (cost_proceed_le _)) _
  | waiting w =>
    have told (past : d.signal w.outlet ≠ .live) : (Thread.listen d w).cost = 0 := by
      unfold Thread.listen
      split
      · next live => exact absurd live past
      · rfl
    unfold Thread.turn
    simp only
    split
    · next ns number record stage =>
      split
      · have less := Demultiplexer.work_resolve_lt true d stage
        simp only [Thread.cost]
        omega
      · next apart =>
        rcases free w rfl with ⟨key, body, offered⟩ | past
        · exact absurd (Demultiplexer.Stage.offering.inj (stage.symm.trans offered)).2.1 apart
        · exact Nat.add_lt_add_left (by rw [told past]; exact Nat.one_pos) _
    · next other =>
      rcases free w rfl with ⟨key, body, offered⟩ | past
      · exact absurd offered (other key w.outlet body)
      · exact Nat.add_lt_add_left (by rw [told past]; exact Nat.one_pos) _

theorem cost_turn (d : Demultiplexer) (t : Thread) :
    2 * (t.turn d).1.work + (t.turn d).2.cost < 2 * d.work + t.cost ∨ t.turn d = (d, t) := by
  by_cases busy : t.isDone = false
  · by_cases free : ∀ w, t = .waiting w →
      (∃ ns record, d.stage = .offering ns w.outlet record) ∨ d.signal w.outlet ≠ .live
    · exact .inl (cost_turn_lt busy free)
    · obtain ⟨w, rfl, waits⟩ : ∃ w, t = .waiting w ∧
          ¬ ((∃ ns record, d.stage = .offering ns w.outlet record) ∨ d.signal w.outlet ≠ .live) := by
        simpa only [not_forall, exists_prop] using free
      obtain ⟨elsewhere, live⟩ := not_or.1 waits
      have listens : Thread.listen d w = .waiting w := by
        simp only [Thread.listen, not_not.1 live]
      right
      unfold Thread.turn
      simp only [listens]
      split
      · next ns number record stage =>
        rw [if_neg]
        rintro rfl
        exact elsewhere ⟨ns, record, stage⟩
      · rfl
  · cases t <;> first | exact .inr rfl | exact absurd rfl busy

theorem Pool.work_worker {t : Thread} (found : p.threads[index]? = some t)
    (goes : 2 * (t.turn p.engine).1.work + (t.turn p.engine).2.cost < 2 * p.engine.work + t.cost) :
    (p.step (.worker index)).work < p.work := by
  have whole := sum_set Thread.cost (t.turn p.engine).2 found
  have turns : p.step (.worker index) =
      ⟨(t.turn p.engine).1, p.threads.set index (t.turn p.engine).2⟩ := by
    simp only [Pool.step, found]
  rw [turns]
  simp only [Pool.work]
  omega

theorem Pool.work_engine
    (busy : p.engine.stage = .reading ∨ ∃ result, p.engine.stage = .ending result) :
    (p.step .engine).work < p.work := by
  have less := Demultiplexer.work_step_lt p.engine busy
  have turns : p.step .engine = { p with engine := p.engine.step } := by
    rcases busy with stage | ⟨result, stage⟩ <;> simp only [Pool.step, Pool.turn, stage]
  rw [turns]
  simp only [Pool.work]
  omega

theorem Pool.work_deserted {ns : Namespace} (stage : p.engine.stage = .offering ns number record)
    (nobody : p.attends number = false) : (p.step .engine).work < p.work := by
  have less := Demultiplexer.work_resolve_lt false p.engine stage
  have turns : p.step .engine = { p with engine := p.engine.resolve false } := by
    simp [Pool.step, Pool.turn, stage, nobody]
  rw [turns]
  simp only [Pool.work]
  omega

/-- Every turn does some of the work or changes nothing. -/
theorem Pool.work_step (actor : Pool.Actor) (p : Pool) :
    (p.step actor).work < p.work ∨ p.step actor = p := by
  cases actor with
  | engine =>
    cases stage : p.engine.stage with
    | reading => exact .inl (work_engine (.inl stage))
    | ending result => exact .inl (work_engine (.inr ⟨result, stage⟩))
    | offering ns number record =>
      cases attended : p.attends number with
      | true => exact .inr (by simp [Pool.step, Pool.turn, stage, attended])
      | false => exact .inl (work_deserted stage attended)
    | idle => exact .inr (by simp [Pool.step, Pool.turn, stage, Demultiplexer.step])
    | stopped result => exact .inr (by simp [Pool.step, Pool.turn, stage, Demultiplexer.step])
  | worker index =>
    cases found : p.threads[index]? with
    | none => exact .inr (by simp only [Pool.step, found])
    | some t =>
      rcases cost_turn p.engine t with less | rests
      · exact .inl (work_worker found less)
      · exact .inr (by simp only [Pool.step, found, rests, set_same found])

/-- While anything is left to do somebody need not wait. -/
theorem Follows.someone (follows : Follows labels final p) (undone : ¬ p.isDone) :
    ∃ actor ∈ p.actors, (p.step actor).work < p.work := by
  obtain ⟨-, shut, list, stand, rfl, -⟩ := follows
  have turn (t : Thread) (member : t ∈ p.threads) (busy : t.isDone = false)
      (free : ∀ w, t = .waiting w →
        (∃ ns record, p.engine.stage = .offering ns w.outlet record) ∨
          p.engine.signal w.outlet ≠ .live) :
      ∃ actor ∈ p.actors, (p.step actor).work < p.work := by
    obtain ⟨index, found⟩ := List.mem_iff_getElem?.1 member
    have bound := (List.getElem?_eq_some_iff.1 found).1
    exact ⟨.worker index, by simp [Pool.actors, bound],
      Pool.work_worker found (cost_turn_lt busy free)⟩
  cases stage : p.engine.stage with
  | idle => exact absurd stage shut.begun
  | reading => exact ⟨.engine, List.mem_cons_self .., Pool.work_engine (.inl stage)⟩
  | ending result =>
    exact ⟨.engine, List.mem_cons_self .., Pool.work_engine (.inr ⟨result, stage⟩)⟩
  | offering ns number record =>
    cases attended : p.attends number with
    | false => exact ⟨.engine, List.mem_cons_self .., Pool.work_deserted stage attended⟩
    | true =>
      obtain ⟨t, member, mine, busy⟩ : ∃ t ∈ p.threads, t.outlet = number ∧ t.isDone = false := by
        simpa [Pool.attends] using attended
      refine turn t member busy ?_
      rintro w rfl
      obtain rfl : w.outlet = number := mine
      exact .inl ⟨ns, record, stage⟩
  | stopped result =>
    obtain ⟨t, member, busy⟩ : ∃ t ∈ p.threads, t.isDone = false := by
      simpa [Pool.isDone, stage] using undone
    refine turn t member busy ?_
    rintro w rfl
    refine .inr fun live => ?_
    -- the worker for whom it stands has a label, so with the engine at rest it is not kept waiting
    obtain ⟨index, bound, found⟩ := List.getElem_of_mem member
    have place : index < list.length := stand.length_eq ▸ bound
    have stands := List.Forall₂.get stand bound place
    simp only [List.get_eq_getElem, found] at stands
    have same : list[index].outlet = w.outlet := stands.outlet
    have label : list[index].label ∈ list.map Worker.label :=
      List.mem_map_of_mem (List.getElem_mem place)
    exact (shut.signal label).2 ((congrArg p.engine.signal same).trans live) result stage

theorem Pool.step_of_isDone (done : p.isDone) (actor : Pool.Actor) : p.step actor = p := by
  obtain ⟨⟨result, stopped⟩, idle⟩ := Pool.isDone_iff.1 done
  cases actor with
  | engine => simp [Pool.step, Pool.turn, stopped, Demultiplexer.step]
  | worker index =>
    cases found : p.threads[index]? with
    | none => simp only [Pool.step, found]
    | some t =>
      have past := idle t (List.mem_of_getElem? found)
      cases t with
      | done w => simp only [Pool.step, found, Thread.turn, set_same found]
      | _ => simp [Thread.isDone] at past

theorem Pool.actors_step (actor : Pool.Actor) (p : Pool) : (p.step actor).actors = p.actors := by
  cases actor with
  | engine =>
    unfold Pool.step Pool.turn
    simp only
    split
    · split <;> rfl
    · rfl
  | worker index =>
    cases found : p.threads[index]? with
    | none => simp only [Pool.step, found]
    | some t => simp [Pool.step, found, Pool.actors]

theorem advancing (labels : List (Namespace × Nat)) (final : Demultiplexer × List Worker)
    (actors : List Pool.Actor) :
    Advancing Pool.step actors (fun p => p.actors = actors ∧ Follows labels final p) (·.isDone)
      (fun actor p => (p.step actor).work < p.work) Pool.work where
  good actor p := fun ⟨same, follows⟩ =>
    ⟨(Pool.actors_step actor p).trans same, follows.step actor⟩
  done actor _ := fun _ done => (Pool.step_of_isDone done actor).symm ▸ done
  someone _ := fun ⟨same, follows⟩ undone => same ▸ follows.someone undone
  advance _ _ := fun _ ready => ready
  patient actor p := fun _ => (Pool.work_step actor p).imp_right fun rests =>
    ⟨congrArg Pool.work rests, fun _ ready => rests.symm ▸ ready⟩

theorem enlist_cases {roster next : Roster} (enlisted : enlist intents roster = .ok (list, next)) :
    list = crew roster.nextOutlet intents ∧ (roster.registry.Valid → next.registry.Valid) ∧
      next.registry.entries = roster.registry.entries ++ (list.map Worker.label).map entryOf := by
  induction intents generalizing roster list with
  | nil =>
    obtain ⟨rfl, rfl⟩ := Prod.mk.inj (Except.ok.inj enlisted)
    exact ⟨rfl, id, by simp⟩
  | cons i rest ih =>
    rw [enlist] at enlisted
    split at enlisted
    · contradiction
    · next number middle opened =>
      split at enlisted
      · contradiction
      · next others last served =>
        obtain ⟨rfl, rfl⟩ := Prod.mk.inj (Except.ok.inj enlisted)
        rw [Roster.open?] at opened
        split at opened
        · contradiction
        · next registry added =>
          obtain ⟨rfl, rfl⟩ := Prod.mk.inj (Except.ok.inj opened)
          obtain ⟨admits, rfl⟩ := Registry.add_eq_ok_iff.1 added
          obtain ⟨rfl, valid, entries⟩ := ih served
          refine ⟨rfl, fun before => valid (before.add admits), ?_⟩
          rw [entries]
          simp [entryOf]

theorem discardAll_cases {namespaces : List Namespace} {roster next : Roster}
    (discarded : discardAll namespaces roster = .ok next) :
    (roster.registry.Valid → next.registry.Valid) ∧ next.registry.entries =
      roster.registry.entries ++ namespaces.map fun ns => (ns, .discard) := by
  induction namespaces generalizing roster with
  | nil =>
    obtain rfl := Except.ok.inj discarded
    exact ⟨id, by simp⟩
  | cons ns rest ih =>
    rw [discardAll] at discarded
    split at discarded
    · contradiction
    · next middle opened =>
      rw [Roster.discard?] at opened
      split at opened
      · contradiction
      · next registry added =>
        obtain rfl := Except.ok.inj opened
        obtain ⟨admits, rfl⟩ := Registry.add_eq_ok_iff.1 added
        obtain ⟨valid, entries⟩ := ih discarded
        refine ⟨fun before => valid (before.add admits), ?_⟩
        rw [entries]
        simp

theorem stand_crew (d : Demultiplexer) (first : Nat) (intents : List Intent) :
    List.Forall₂ (Stands d) ((intents.zip (crew first intents)).map fun p =>
      Thread.opening p.1 p.2.outlet) (crew first intents) := by
  induction intents generalizing first with
  | nil => exact .nil
  | cons i rest ih =>
    refine .cons ?_ (ih (first + 1))
    have same : (Worker.begin i first).outlet = first := congrArg Prod.snd (label_begin i first)
    change Stands d (.opening i (Worker.begin i first).outlet) (.begin i first)
    rw [same]
    exact .opening i first

/-- A request that is admitted: a worker for each of its namespaces, and all others of the catalog
are read for nobody. -/
theorem prepare_cases {roster : Roster} (prepared : prepare intents a = .ok (list, roster)) :
    list = crew 0 intents ∧ roster.registry.Valid ∧ roster.registry.entries =
      (list.map Worker.label).map entryOf ++
        (a.catalog.namespaces.filter (· ∉ intents.map (·.ns))).map fun ns => (ns, .discard) := by
  unfold prepare at prepared
  split at prepared
  · contradiction
  · split at prepared
    · contradiction
    · next enlisted =>
      split at prepared
      · contradiction
      · next discarded =>
        obtain ⟨rfl, rfl⟩ := Prod.mk.inj (Except.ok.inj prepared)
        obtain ⟨rfl, valid, served⟩ := enlist_cases enlisted
        obtain ⟨stays, entries⟩ := discardAll_cases discarded
        exact ⟨rfl, stays (valid (Registry.valid_empty _)), by rw [entries, served]; rfl⟩

/-- The pool of a restore starts with what `restore` drives. -/
theorem follows_muster (mustered : Pool.muster intents a = .ok p) :
    ∃ labels final, Follows labels final p ∧ restore intents a =
      (rootCause final.1.result (dismiss final.1 final.2), dismiss final.1 final.2) := by
  unfold Pool.muster at mustered
  split at mustered
  · contradiction
  · next list roster prepared =>
    obtain rfl := Except.ok.inj mustered
    have whole : restore intents a =
        let final := drive workers ({ Demultiplexer.start a.reader a.cap with roster } :
          Demultiplexer).run list
        (rootCause final.1.result (dismiss final.1 final.2), dismiss final.1 final.2) := by
      simp only [restore, prepared, dismiss]
    refine ⟨list.map Worker.label, _, ?_, whole⟩
    obtain ⟨rfl, valid, entries⟩ := prepare_cases prepared
    refine ⟨numbers_crew 0 intents ▸ List.nodup_range', ?_, _, stand_crew _ 0 intents, rfl, rfl⟩
    have reads (ns : Namespace) (number : Nat)
        (entry : (ns, Route.outlet number) ∈ roster.registry.entries) :
        (ns, number) ∈ (crew 0 intents).map Worker.label := by
      rw [entries] at entry
      simpa [entryOf, Prod.ext_iff] using entry
    refine ⟨.of_busy (by simp [Demultiplexer.run]) (by simp [Demultiplexer.run])
      (by simp [Demultiplexer.run]), by simp [Demultiplexer.run], valid, reads, ?_,
      by simp [Demultiplexer.run], ?_⟩
    · simp [Demultiplexer.run, Demultiplexer.start]
    · intro _ l member
      left
      change _ ∈ roster.registry.entries
      rw [entries]
      exact List.mem_append_left _ (List.mem_map_of_mem member)

/-- Whatever the order of their turns, the engine and the workers of a restore come to what `restore`
does. -/
theorem outcome_execute (mustered : Pool.muster intents a = .ok p) (schedule : List Pool.Actor)
    (done : (p.execute schedule).isDone) : (p.execute schedule).outcome = restore intents a := by
  obtain ⟨labels, final, follows, whole⟩ := follows_muster mustered
  rw [whole]
  exact (follows.execute schedule).outcome done

/-- When all have had enough turns, they are done. -/
theorem isDone_execute (mustered : Pool.muster intents a = .ok p) {schedule : List Pool.Actor}
    (turns : Rounds p.actors (p.work + 1) schedule) : (p.execute schedule).isDone := by
  obtain ⟨labels, final, follows, -⟩ := follows_muster mustered
  exact (advancing labels final p.actors).done_of_rounds ⟨rfl, follows⟩ turns

/-- A request that is refused starts nobody. -/
theorem muster_refused {e : EngineError} (refused : Pool.muster intents a = .error e) :
    restore intents a = (.error e, []) := by
  unfold Pool.muster at refused
  split at refused
  · next fault prepared =>
    obtain rfl := Except.error.inj refused
    simp only [restore, prepared]
  · contradiction

end Restore
end DumpArchive
