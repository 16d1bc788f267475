import DumpArchive.Proofs.DepartingReceivers
import DumpArchive.Proofs.EngineComparison

/-! What receivers may conclude. Each hears the records of its namespace that the engine has read, and
after them the end if that was read, or else that the engine is gone; a run fails for a receiver
that is gone just when the stream comes to a record of it. -/
namespace DumpArchive

open Block (deliveries recordsOf)

/-- What a receiver is told when no record will come. -/
def Wire.closing (ns : Namespace) (v : Wire) : Except EngineError (Option Bytes) :=
  if ns ∈ v.ended then .ok none else .error (.engineGone ns.shown)

/-- All that a receiver has been told, if `calls` of its calls found no record to come. -/
def Wire.tells (ns : Namespace) (calls : Nat) (v : Wire) : List (Except EngineError (Option Bytes)) :=
  (recordsOf ns v.blocks).map (fun b => .ok (some b)) ++ List.replicate calls (v.closing ns)

/-- After `front` there is another record for a receiver that has hung up by then, and there was
none before. -/
structure Strands (quota : Namespace → Option Nat) (wanted : List Namespace)
    (all front : List (Namespace × Bytes)) (ns : Namespace) : Prop where
  reached : ∃ record back, all = front ++ (ns, record) :: back
  listens : ns ∈ wanted
  spent : quota ns = some ((front.map Prod.fst).count ns)
  before : ∀ other ∈ wanted, ∀ n ∈ quota other, (front.map Prod.fst).count other ≤ n

section Strands

variable {quota : Namespace → Option Nat} {wanted : List Namespace}
  {all front other : List (Namespace × Bytes)} {ns key : Namespace}

/-- Once the record has been passed, its receiver would have taken too many. -/
theorem Strands.exceeds {record : Bytes} {back : List (Namespace × Bytes)}
    (strands : Strands quota wanted all front ns)
    (later : other = front ++ (ns, record) :: back) :
    ¬ ∀ key ∈ wanted, ∀ n ∈ quota key, (other.map Prod.fst).count key ≤ n := by
  intro within
  have few := within ns strands.listens _ strands.spent
  simp [later] at few

theorem Strands.unique (first : Strands quota wanted all front ns)
    (second : Strands quota wanted all other key) : front = other ∧ ns = key := by
  obtain ⟨record, back, here⟩ := first.reached
  obtain ⟨body, rest, there⟩ := second.reached
  rcases List.append_eq_append_iff.1 (here.symm.trans there) with
    ⟨gap, split, tail⟩ | ⟨gap, split, tail⟩
  · cases gap with
    | nil =>
      obtain ⟨same, -⟩ := List.cons.inj tail
      exact ⟨by simpa using split.symm, congrArg Prod.fst same⟩
    | cons entry gap =>
      obtain ⟨rfl, -⟩ := List.cons.inj tail
      exact absurd second.before (first.exceeds split)
  · cases gap with
    | nil =>
      obtain ⟨same, -⟩ := List.cons.inj tail
      exact ⟨by simpa using split, (congrArg Prod.fst same).symm⟩
    | cons entry gap =>
      obtain ⟨rfl, -⟩ := List.cons.inj tail
      exact absurd first.before (second.exceeds split)

end Strands

namespace Demultiplexer

variable {d e : Demultiplexer} {max : UInt64} {origin : Nat} {v w : Wire} {tail rest : Bytes}
  {verdict : Except EngineError Summary} {part : Block.Part} {reader : Token.Reader}
  {labels : List (Namespace × Nat)} {quota : Namespace → Option Nat} {ns : Namespace}

/-- The engine has read `v`, and one without consumers beside it will have read `w` when it comes
to its verdict. -/
structure Shadowed (max : UInt64) (origin : Nat) (verdict : Except EngineError Summary) (w v : Wire)
    (tail : Bytes) (d : Demultiplexer) : Prop where
  underway : d.Underway max origin v tail
  mirrored : ∃ e, d.Mirrors e ∧ e.scan = verdict ∧ e.survey v = w

theorem Shadowed.goes (shadowed : d.Shadowed max origin verdict w v tail)
    (found : Block.nextPart d.place d.reader = (.ok part, reader))
    (after : (d.step.resolve true).Underway max origin (v.after part) rest) :
    (d.step.resolve true).Shadowed max origin verdict w (v.after part) rest := by
  obtain ⟨e, mirrors, scan, survey⟩ := shadowed.mirrored
  have reading := shadowed.underway.reading
  have stage : e.stage = .reading := mirrors.stage.trans reading
  have mirrored := mirrors.step reading
  have again : Block.nextPart e.place e.reader = (.ok part, reader) := by
    rw [mirrors.place, mirrors.reader, found]
  refine ⟨after, e.step, mirrored, (scan_step (.inl stage)).trans scan, ?_⟩
  rw [← survey_goes stage again (mirrored.stage.trans after.reading)]
  exact survey

theorem Shadowed.halts {result : Except EngineError Unit}
    (shadowed : d.Shadowed max origin verdict w v tail) (stage : d.step.stage = .ending result) :
    v = w ∧ result.map (fun _ => d.step.summary) = verdict := by
  obtain ⟨e, mirrors, scan, survey⟩ := shadowed.mirrored
  have mirrored := mirrors.step shadowed.underway.reading
  rw [resolve_of_ne true (by simp [stage])] at mirrored
  have stops := mirrored.stage.trans stage
  rw [survey_halts (by simp [stops])] at survey
  rw [← scan_step (.inl (mirrors.stage.trans shadowed.underway.reading)), scan_ending stops,
    mirrored.summary] at scan
  exact ⟨survey, scan⟩

theorem Shadowed.reaches (shadowed : d.Shadowed max origin verdict w v tail) :
    v.bytes <+: w.bytes ∧ deliveries v.blocks <+: deliveries w.blocks := by
  obtain ⟨e, -, -, rfl⟩ := shadowed.mirrored
  exact prefix_survey v e

/-- Whoever has a label is served until its end has been read, and is then known to have ended. -/
structure Hosts (labels : List (Namespace × Nat)) (v : Wire) (d : Demultiplexer) : Prop
    extends Seats labels d.roster.registry d.ended where
  agree : ∀ l ∈ labels, l.2 ∈ d.ended ↔ l.1 ∈ v.ended
  closed : ∀ ns ∈ v.ended, ns ∉ d.roster.registry.keys

theorem Hosts.of_eq (hosts : Hosts labels v d) (roster : e.roster = d.roster)
    (ended : e.ended = d.ended) (same : w.ended = v.ended) : Hosts labels w e := by
  refine ⟨?_, ?_, ?_⟩
  · rw [roster, ended]
    exact hosts.toSeats
  · rw [ended, same]
    exact hosts.agree
  · rw [roster, same]
    exact hosts.closed

theorem Hosts.heed {header : CollectionHeader} {route : Route} {lead : Bytes}
    (hosts : Hosts labels v d) (valid : d.roster.registry.Valid)
    (entry : (header.ns, route) ∈ d.roster.registry.entries) :
    Hosts labels (v.enter lead header) (d.heed header route) := by
  refine ⟨hosts.toSeats.heed valid entry, ?_, ?_⟩
  · intro l member
    rw [Wire.ended_enter]
    unfold Demultiplexer.heed
    cases ends : header.eof with
    | false => simpa [select] using hosts.agree l member
    | true =>
      have known : header.ns ∈ d.roster.registry.keys := List.mem_map_of_mem entry
      by_cases mine : l.1 = header.ns
      · rcases hosts.seated l member with served | ⟨past, -⟩
        · have own := valid.find?_eq_some_iff.2 served
          rw [mine, valid.find?_eq_some_iff.2 entry] at own
          obtain rfl := Option.some.inj own
          simp [conclude, Route.endedAfter, mine]
        · exact absurd (mine ▸ known) past
      · have others : l.2 ∈ route.endedAfter d.ended ↔ l.2 ∈ d.ended := by
          cases route with
          | discard => rfl
          | outlet number =>
            have apart : l.2 ≠ number := by
              rintro rfl
              have same := List.inj_on_of_nodup_map hosts.numbers member
                (hosts.routes header.ns l.2 entry) rfl
              exact mine (congrArg Prod.fst same)
            simp [Route.endedAfter, apart]
        simp only [if_true, conclude, others, List.mem_append, List.mem_singleton, mine, or_false]
        exact hosts.agree l member
  · rw [Wire.ended_enter]
    unfold Demultiplexer.heed
    cases ends : header.eof with
    | false => simpa [select] using hosts.closed
    | true =>
      intro ns member
      simp only [if_true, conclude, Registry.keys_close, List.mem_filter]
      rintro ⟨kept, apart⟩
      rcases List.mem_append.1 member with old | new
      · exact hosts.closed ns old kept
      · simp at new apart
        exact apart new

/-- As long as the engine is at work. -/
theorem Hosts.signal (hosts : Hosts labels v d) {l : Namespace × Nat} (member : l ∈ labels) :
    d.signal l.2 = if l.1 ∈ v.ended then .ended else .live := by
  unfold Demultiplexer.signal
  by_cases past : l.2 ∈ d.ended
  · rw [if_pos past, if_pos ((hosts.agree l member).1 past)]
  · rw [if_neg past, if_neg (mt (hosts.agree l member).2 past)]
    rcases hosts.seated l member with served | ⟨-, done⟩
    · exact if_pos (by simpa using ⟨_, served⟩)
    · exact absurd done past

/-- How a run has ended. -/
inductive Fate (quota : Namespace → Option Nat) (wanted : List Namespace)
    (verdict : Except EngineError Summary) (w v : Wire) : Except EngineError Summary → Prop
  | whole : v = w → Fate quota wanted verdict w v verdict
  | stranded {ns : Namespace} {b : Block} {record : Bytes} : v.unfinished = some b →
    b.header.ns = ns → (v.push record).bytes <+: w.bytes →
    Strands quota wanted (deliveries w.blocks) (deliveries v.blocks) ns →
    Fate quota wanted verdict w v (.error (.consumerGone ns.shown))

/-- The engine has read `v`; its consumers have the labels. -/
inductive Phase (quota : Namespace → Option Nat) (max : UInt64) (origin : Nat)
    (verdict : Except EngineError Summary) (w : Wire) (labels : List (Namespace × Nat)) (v : Wire)
    (d : Demultiplexer) : Prop
  | reading {tail : Bytes} : d.Shadowed max origin verdict w v tail → Hosts labels v d →
    Phase quota max origin verdict w labels v d
  | offering {ns : Namespace} {number : Nat} {record tail : Bytes} {b : Block} :
    d.stage = .offering ns number record → v.unfinished = some b → b.header.ns = ns →
    (ns, .outlet number) ∈ d.roster.registry.entries →
    (d.resolve true).Shadowed max origin verdict w (v.push record) tail → Hosts labels v d →
    Phase quota max origin verdict w labels v d
  | ending {result : Except EngineError Unit} : d.stage = .ending result →
    (result = .ok () → d.roster.registry.entries = []) → Hosts labels v d →
    Fate quota (labels.map Prod.fst) verdict w v (result.map fun _ => d.summary) →
    Phase quota max origin verdict w labels v d
  | stopped {result : Except EngineError Summary} : d.stage = .stopped result →
    d.roster.registry.entries = [] →
    (∀ l ∈ labels, d.signal l.2 = if l.1 ∈ v.ended then .ended else .gone) →
    Fate quota (labels.map Prod.fst) verdict w v result →
    Phase quota max origin verdict w labels v d

/-- A turn of the engine reads on or comes to the end. No record is handed over by it. -/
theorem Shadowed.turn (small : max.toNat < 2 ^ 63)
    (shadowed : d.Shadowed max origin verdict w v tail) (hosts : Hosts labels v d) :
    ∃ u, Phase quota max origin verdict w labels u d.step ∧ (∀ b ∈ u.blocks, b.Formed max) ∧
      (∀ l ∈ labels, recordsOf l.1 u.blocks = recordsOf l.1 v.blocks) ∧
      ∀ ns ∈ v.ended, ns ∈ u.ended := by
  have underway := shadowed.underway
  cases underway.turn small with
  | @enters start lead rest header route reader found same whole decodes entry goes after =>
    have reads := resolve_of_ne (d := d.step) true (by simp [after.reading])
    have reached : v.after (.header start lead) = v.enter lead header := by
      simp [Wire.after, decodes]
    have shadows := shadowed.goes found (by rw [reads, reached]; exact after)
    rw [reads, reached] at shadows
    have hosted : Hosts labels (v.enter lead header) d.step := by
      rw [goes]
      exact (hosts.of_eq (e := { d with reader, place := .inside }) rfl rfl rfl).heed
        underway.valid entry
    refine ⟨_, .reading shadows hosted, after.formed,
      fun l _ => Wire.recordsOf_enter l.1 lead header v, ?_⟩
    intro ns member
    rw [Wire.ended_enter]
    exact List.mem_append_left _ member
  | @meets start record rest b route reader found same unfinished entry goes after =>
    cases route with
    | discard =>
      rw [deliver] at goes
      rw [← goes] at after
      have reads := resolve_of_ne (d := d.step) true (by simp [after.reading])
      have shadows := shadowed.goes found (by rw [reads]; exact after)
      rw [reads] at shadows
      have hosted : Hosts labels (v.push record) d.step :=
        hosts.of_eq (by rw [goes]) (by rw [goes]) (Wire.ended_push record v)
      refine ⟨_, .reading shadows hosted, after.formed, fun l member => ?_, fun ns member => ?_⟩
      · have apart := hosts.apart underway.valid entry l member
        simp [Wire.after, Wire.recordsOf_push unfinished, Ne.symm apart]
      · rw [Wire.after, Wire.ended_push]
        exact member
    | outlet number =>
      have offers : d.step.stage = .offering b.header.ns number record := by rw [goes]; rfl
      have taken : d.step.resolve true =
          { d with reader, summary := d.summary.count b.header.ns record } := by
        simp [goes, deliver, resolve, ← underway.reading]
      have shadows := shadowed.goes found (by rw [taken]; exact after)
      exact ⟨v, .offering offers unfinished rfl (by rw [goes]; exact entry) shadows
        (hosts.of_eq (by rw [goes]; rfl) (by rw [goes]; rfl) rfl), underway.formed,
        fun _ _ => rfl, fun _ => id⟩
  | closes found same unfinished goes after =>
    have reads := resolve_of_ne (d := d.step) true (by simp [after.reading])
    have shadows := shadowed.goes found (by rw [reads]; exact after)
    rw [reads] at shadows
    have hosted : Hosts labels v.terminate d.step :=
      hosts.of_eq (by rw [goes]) (by rw [goes]) (Wire.ended_terminate v)
    exact ⟨_, .reading shadows hosted, after.formed, fun l _ => by simp [Wire.after],
      fun ns => by simp [Wire.after]⟩
  | ends nothing whole nobody stops =>
    have stage : d.step.stage = .ending (.ok ()) := by rw [stops]
    obtain ⟨all, sums⟩ := shadowed.halts stage
    refine ⟨v, .ending stage (fun _ => ?_) (hosts.of_eq ?_ ?_ rfl) ?_, underway.formed,
      fun _ _ => rfl, fun _ => id⟩
    · rw [stops]
      exact nobody
    · rw [stops]
    · rw [stops]
    · rw [sums]
      exact .whole all
  | fails defect stage roster ended =>
    obtain ⟨all, sums⟩ := shadowed.halts stage
    refine ⟨v, .ending stage (by simp) (hosts.of_eq roster ended rfl) ?_, underway.formed,
      fun _ _ => rfl, fun _ => id⟩
    rw [sums]
    exact .whole all

/-- The registry is shut: who has not ended will find the engine gone. -/
theorem Hosts.signal_ending {result : Except EngineError Unit} (hosts : Hosts labels v d)
    (stage : d.stage = .ending result) (complete : result = .ok () → d.roster.registry.entries = []) :
    ∀ l ∈ labels, d.step.signal l.2 = if l.1 ∈ v.ended then .ended else .gone := by
  intro l member
  cases result with
  | ok =>
    have stops : d.step = { d with
        stage := .stopped (.ok d.summary)
        roster := { d.roster with registry := d.roster.registry.finish } } := by
      simp only [step, stage]
    rcases hosts.seated l member with served | ⟨-, past⟩
    · simp [complete rfl] at served
    · rw [stops, if_pos ((hosts.agree l member).1 past)]
      exact if_pos past
  | error e =>
    have stops : d.step = { d with
        stage := .stopped (.error e)
        roster := { d.roster with registry := d.roster.registry.abandon }
        current := none } := by
      simp only [step, stage]
    rw [stops]
    unfold Demultiplexer.signal
    by_cases past : l.2 ∈ d.ended
    · rw [if_pos past, if_pos ((hosts.agree l member).1 past)]
    · rw [if_neg past, if_neg (mt (hosts.agree l member).2 past)]
      simp [Registry.abandon]

theorem Hosts.shut {result : Except EngineError Unit} (hosts : Hosts labels v d)
    (stage : d.stage = .ending result) (complete : result = .ok () → d.roster.registry.entries = [])
    (fate : Fate quota (labels.map Prod.fst) verdict w v (result.map fun _ => d.summary)) :
    Phase quota max origin verdict w labels v d.step := by
  have signals := hosts.signal_ending stage complete
  cases result with
  | ok =>
    exact .stopped (by simp only [step, stage]; rfl) (by simp only [step, stage]; exact complete rfl)
      signals fate
  | error e =>
    exact .stopped (by simp only [step, stage]; rfl) (by simp only [step, stage]; rfl) signals fate

end Demultiplexer
end DumpArchive
