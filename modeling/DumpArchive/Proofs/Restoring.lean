import DumpArchive.Proofs.ConsumerGone
import DumpArchive.Proofs.RestoreWorkers

/-! An engine whose consumers are the workers of a restore. As it reads, what it has read grows on a
wire, and the workers have stored the records that stand there. -/
namespace DumpArchive

namespace Demultiplexer

open Restore (Worker workers)

variable {d e : Demultiplexer} {labels : List (Namespace × Nat)} {ns : Namespace} {route : Route}

theorem still_workers : workers.Still := fun _ _ _ => rfl

theorem drive_ending {result : Except EngineError Unit} (stage : d.stage = .ending result)
    (list : List Worker) : drive workers d list = (d.step, list) := by
  rw [drive_step still_workers (.inr ⟨result, stage⟩)]
  cases result with
  | ok =>
    have stopped : d.step.stage = .stopped (.ok d.summary) := by simp only [step, stage]
    exact drive_stopped still_workers stopped list
  | error e =>
    have stopped : d.step.stage = .stopped (.error e) := by simp only [step, stage]
    exact drive_stopped still_workers stopped list

variable {intents : List Restore.Intent} {max : UInt64} {origin : Nat} {v : Wire} {tail rest : Bytes}
  {list next : List Worker} {reader : Token.Reader} {record : Bytes}

/-- The engine has read `v`, which began at `origin`, and will read `tail`; the workers have stored
the records of `v`. -/
structure Restoring (intents : List Restore.Intent) (max : UInt64) (origin : Nat) (v : Wire)
    (tail : Bytes) (d : Demultiplexer) (list : List Worker) : Prop
    extends d.Underway max origin v tail where
  hosts : Hosts (list.map Worker.label) v d
  storing : List.Forall₂ (Restore.Storing v.blocks) intents list

/-- What a turn of the engine comes to. -/
inductive Turned (intents : List Restore.Intent) (max : UInt64) (origin : Nat) (v : Wire)
    (tail : Bytes) (d : Demultiplexer) (list : List Worker) : Prop
  /-- It reads on, with the record that was due taken. -/
  | goes {w : Wire} {rest : Bytes} {next : List Worker} : v.bytes ++ tail = w.bytes ++ rest →
    drive workers d.step list = drive workers (d.step.resolve true) next →
    Restoring intents max origin w rest (d.step.resolve true) next →
    Turned intents max origin v tail d list
  | ends : tail = [] → v.unfinished = none → d.step.stage = .ending (.ok ()) →
    d.step.roster.registry.entries = [] → Hosts (list.map Worker.label) v d.step →
    Turned intents max origin v tail d list
  | fails (defect : Defect) :
    d.step.stage = .ending (.error (.frame (.corrupt (origin + v.bytes.length) defect))) →
    Hosts (list.map Worker.label) v d.step → Turned intents max origin v tail d list

theorem Restoring.turned_body {b : Block}
    (restoring : Restoring intents max origin v (record ++ rest) d list)
    (unfinished : v.unfinished = some b)
    (entry : (b.header.ns, route) ∈ d.roster.registry.entries)
    (goes : d.step = ({ d with reader } : Demultiplexer).deliver b.header.ns record route)
    (after : ({ d with reader, summary := d.summary.count b.header.ns record } :
      Demultiplexer).Underway max origin (v.push record) rest) :
    Turned intents max origin v (record ++ rest) d list := by
  have split : v.bytes ++ (record ++ rest) = (v.push record).bytes ++ rest := by
    rw [Wire.bytes_push unfinished, List.append_assoc]
  cases route with
  | discard =>
    have reads : d.step.resolve true =
        { d with reader, summary := d.summary.count b.header.ns record } := by
      rw [goes, resolve_of_ne true (by simp [deliver, restoring.reading])]
      rfl
    have storing : List.Forall₂ (Restore.Storing (v.push record).blocks) intents list := by
      apply Restore.storing_others restoring.storing
      intro w member
      have apart : w.ns ≠ b.header.ns :=
        restoring.hosts.apart restoring.valid entry _ (List.mem_map_of_mem member)
      simp [Wire.recordsOf_push unfinished, Ne.symm apart]
    have restores : Restoring intents max origin (v.push record) rest (d.step.resolve true) list := by
      rw [reads]
      exact ⟨after, restoring.hosts.of_eq rfl rfl (Wire.ended_push record v), storing⟩
    refine .goes split ?_ restores
    rw [reads, goes]
    rfl
  | outlet number =>
    have offers : d.step.stage = .offering b.header.ns number record := by rw [goes]; rfl
    have reads : d.step.resolve true =
        { d with reader, summary := d.summary.count b.header.ns record } := by
      simp [goes, deliver, resolve, ← restoring.reading]
    obtain ⟨w, member, label⟩ := List.mem_map.1 (restoring.hosts.routes _ number entry)
    have names : (list.map (·.ns)).Nodup := by
      simpa [Worker.label, Function.comp_def] using restoring.hosts.names
    have numbers : (list.map (·.outlet)).Nodup := by
      simpa [Worker.label, Function.comp_def] using restoring.hosts.numbers
    have another : ∀ other, Block.recordsOf other (v.push record).blocks =
        Block.recordsOf other v.blocks ++ if b.header.ns = other then [record] else [] :=
      Wire.recordsOf_push unfinished
    obtain ⟨next, offered, storing, labels⟩ := Restore.offer_storing restoring.storing names numbers
      ⟨w, member, congrArg Prod.fst label, congrArg Prod.snd label⟩ another
    have handed : workers.offer number record d.step.roster list =
        (true, d.step.roster, next) := by
      simp only [workers, offered]
    refine .goes split (drive_offering still_workers offers handed) ?_
    rw [reads]
    exact ⟨after, labels ▸ restoring.hosts.of_eq rfl rfl (Wire.ended_push record v), storing⟩

theorem Restoring.turned (small : max.toNat < 2 ^ 63)
    (restoring : Restoring intents max origin v tail d list) :
    Turned intents max origin v tail d list := by
  cases restoring.toUnderway.turn small with
  | @enters start lead rest header route reader found same whole decodes entry goes after =>
    subst same
    have reads := resolve_of_ne (d := d.step) true (by simp [after.reading])
    have storing : List.Forall₂ (Restore.Storing (v.enter lead header).blocks) intents list :=
      Restore.storing_others restoring.storing fun w _ => Wire.recordsOf_enter w.ns lead header v
    have hosts : Hosts (list.map Worker.label) (v.enter lead header) d.step := by
      rw [goes]
      exact (restoring.hosts.of_eq (e := { d with reader, place := .inside }) rfl rfl rfl).heed
        restoring.valid entry
    have restores : Restoring intents max origin (v.enter lead header) rest (d.step.resolve true)
        list := by
      rw [reads]
      exact ⟨after, hosts, storing⟩
    refine .goes ?_ (by rw [reads]) restores
    rw [Wire.bytes_enter whole, List.append_assoc]
  | meets found same unfinished entry goes after =>
    subst same
    exact restoring.turned_body unfinished entry goes after
  | @closes rest b reader found same unfinished goes after =>
    subst same
    have reads := resolve_of_ne (d := d.step) true (by simp [after.reading])
    have hosts : Hosts (list.map Worker.label) v.terminate d.step :=
      restoring.hosts.of_eq (by rw [goes]) (by rw [goes]) (Wire.ended_terminate v)
    have restores : Restoring intents max origin v.terminate rest (d.step.resolve true) list := by
      rw [reads]
      exact ⟨after, hosts, by simpa using restoring.storing⟩
    refine .goes ?_ (by rw [reads]) restores
    rw [Wire.bytes_terminate unfinished, List.append_assoc]
  | ends nothing whole nobody stops =>
    exact .ends nothing whole (by rw [stops]) (by rw [stops]; exact nobody)
      (restoring.hosts.of_eq (by rw [stops]) (by rw [stops]) rfl)
  | fails defect stage roster ended =>
    exact .fails defect stage (restoring.hosts.of_eq roster ended rfl)

theorem work_resolve_le (taken : Bool) (d : Demultiplexer) : (d.resolve taken).work ≤ d.work := by
  cases stage : d.stage with
  | offering ns number record => exact Nat.le_of_lt (work_resolve_lt taken d stage)
  | _ => rw [resolve_of_ne taken (by simp [stage])]

theorem step_ending {result : Except EngineError Unit} (stage : d.stage = .ending result) :
    d.step.result = result.map (fun _ => d.summary) := by
  cases result <;> simp [step, stage, Demultiplexer.result, Except.map]

/-- A run over `data` that has come to its stop: the part of it that was read, and the workers with
the records of that part. It is all of the data if the verdict is good, and otherwise what stands
before the fault. -/
structure Settled (intents : List Restore.Intent) (max : UInt64) (origin : Nat) (data : Bytes)
    (verdict : Except EngineError Summary) (w : Wire) (rest : Bytes) (last : Demultiplexer)
    (list : List Worker) : Prop where
  split : data = w.bytes ++ rest
  formed : ∀ b ∈ w.blocks, b.Formed max
  storing : List.Forall₂ (Restore.Storing w.blocks) intents list
  result : last.result = verdict
  signals : ∀ worker ∈ list,
    last.signal worker.outlet = if worker.ns ∈ w.ended then .ended else .gone
  complete : ∀ s, verdict = .ok s →
    rest = [] ∧ w.unfinished = none ∧ ∀ worker ∈ list, worker.ns ∈ w.ended
  corrupt : ∀ e, verdict = .error e →
    ∃ defect, e = .frame (.corrupt (origin + w.bytes.length) defect)

/-- Driven to its stop the engine comes to what an engine without consumers comes to. -/
theorem Restoring.settled (small : max.toNat < 2 ^ 63)
    (restoring : Restoring intents max origin v tail d list) (mirrors : d.Mirrors e) :
    ∃ w rest last next, drive workers d list = (last, next) ∧
      Settled intents max origin (v.bytes ++ tail) e.scan w rest last next := by
  induction work : d.work using Nat.strong_induction_on generalizing d e v tail list with
  | _ n ih =>
    subst work
    have mirrored := mirrors.step restoring.reading
    rw [drive_step still_workers (.inl restoring.reading),
      ← scan_step (.inl (mirrors.stage.trans restoring.reading))]
    cases restoring.turned small with
    | goes split driven goes =>
      have less : (d.step.resolve true).work < d.work :=
        Nat.lt_of_le_of_lt (work_resolve_le ..) (work_step_lt d (.inl restoring.reading))
      rw [driven, split]
      exact ih _ less goes mirrored rfl
    | ends nothing whole stage nobody hosts =>
      have result := step_ending stage
      have signals := hosts.signal_ending stage fun _ => nobody
      rw [resolve_of_ne true (by simp [stage])] at mirrored
      have scanned := scan_ending (mirrored.stage.trans stage)
      rw [mirrored.summary] at scanned
      refine ⟨v, [], d.step.step, list, drive_ending stage list, by rw [nothing], restoring.formed,
        restoring.storing, result.trans scanned.symm, fun worker member =>
          signals _ (List.mem_map_of_mem member), fun s good => ⟨rfl, whole, ?_⟩, ?_⟩
      · intro worker member
        have label := List.mem_map_of_mem (f := Worker.label) member
        rcases hosts.seated _ label with served | ⟨-, past⟩
        · simp [nobody] at served
        · exact (hosts.agree _ label).1 past
      · intro e bad
        simp [scanned, Except.map] at bad
    | fails defect stage hosts =>
      have result := step_ending stage
      have signals := hosts.signal_ending stage (by simp)
      rw [resolve_of_ne true (by simp [stage])] at mirrored
      have scanned := scan_ending (mirrored.stage.trans stage)
      rw [mirrored.summary] at scanned
      refine ⟨v, tail, d.step.step, list, drive_ending stage list, rfl, restoring.formed,
        restoring.storing, result.trans scanned.symm, fun worker member =>
          signals _ (List.mem_map_of_mem member), ?_, ?_⟩
      · intro s good
        simp [scanned, Except.map] at good
      · intro e bad
        rw [scanned] at bad
        exact ⟨defect, (Except.error.inj bad).symm⟩

end Demultiplexer
end DumpArchive
