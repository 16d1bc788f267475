import DumpArchive.Proofs.EngineTurns

/-! What an engine without consumers reads of its input: everything up to the end or a fault. -/
namespace DumpArchive

/-- The records of some blocks, each with its namespace, in the order of the stream. -/
def Block.deliveries (blocks : List Block) : List (Namespace × Bytes) :=
  blocks.flatMap fun b => b.records.map (b.header.ns, ·)

theorem Block.length_recordsOf (ns : Namespace) (blocks : List Block) :
    (recordsOf ns blocks).length = ((deliveries blocks).map Prod.fst).count ns := by
  induction blocks with
  | nil => rfl
  | cons b blocks ih =>
    simp only [deliveries] at ih
    by_cases same : b.header.ns = ns <;>
      simp [deliveries, Function.comp_def, List.count_replicate, ih, same]

namespace Wire

open Block (deliveries)

variable {v w : Wire} {b : Block} {record : Bytes}

/-- What has been read once another part has. -/
def after (part : Block.Part) (w : Wire) : Wire :=
  match part with
  | .header _ lead => match CollectionHeader.ofRecord? lead with
    | some header => w.enter lead header
    | none => w
  | .body _ record => w.push record
  | .close => w.terminate
  | .finish _ => w

theorem bytes_prefix_terminate (w : Wire) : w.bytes <+: w.terminate.bytes := by
  cases unfinished : w.unfinished with
  | none => simp [bytes, terminate, blocks, unfinished]
  | some b => exact bytes_terminate unfinished ▸ List.prefix_append ..

theorem bytes_prefix_after (part : Block.Part) (w : Wire) : w.bytes <+: (w.after part).bytes := by
  cases part with
  | header start lead =>
    simp only [after]
    split
    · next header _ =>
      have grows : w.terminate.bytes <+: (w.enter lead header).bytes := by
        simp [terminate, enter, bytes]
      exact (bytes_prefix_terminate w).trans grows
    · exact List.prefix_rfl
  | body start record =>
    cases unfinished : w.unfinished with
    | none => simp [after, push, bytes, unfinished]
    | some b => exact bytes_push unfinished ▸ List.prefix_append ..
  | close => exact bytes_prefix_terminate w
  | finish => exact List.prefix_rfl

theorem deliveries_enter (lead : Bytes) (header : CollectionHeader) (w : Wire) :
    deliveries (w.enter lead header).blocks = deliveries w.blocks := by
  simp [deliveries]

theorem deliveries_push (unfinished : w.unfinished = some b) :
    deliveries (w.push record).blocks = deliveries w.blocks ++ [(b.header.ns, record)] := by
  rw [blocks_push unfinished, blocks_of_unfinished unfinished]
  simp [deliveries]

theorem deliveries_prefix_after (part : Block.Part) (w : Wire) :
    deliveries w.blocks <+: deliveries (w.after part).blocks := by
  cases part with
  | header start lead =>
    simp only [after]
    split
    · exact deliveries_enter .. ▸ List.prefix_rfl
    · exact List.prefix_rfl
  | body start record =>
    cases unfinished : w.unfinished with
    | none => simp [after, push, blocks, unfinished]
    | some b => exact deliveries_push unfinished ▸ List.prefix_append ..
  | close => exact (blocks_terminate w).symm ▸ List.prefix_rfl
  | finish => exact List.prefix_rfl

end Wire

namespace Demultiplexer

variable {d : Demultiplexer} {max : UInt64} {origin : Nat} {v : Wire} {tail : Bytes}

/-- All that an engine without consumers has read when it stops, if it has read `v` so far. -/
def survey (v : Wire) (d : Demultiplexer) : Wire :=
  match _reading : d.stage with
  | .reading => match Block.nextPart d.place d.reader, d.step.stage with
    | (.ok part, _), .reading => survey (v.after part) d.step
    | _, _ => v
  | _ => v
termination_by d.work
decreasing_by exact work_step_lt d (.inl _reading)

theorem survey_goes {part : Block.Part} {reader : Token.Reader} (reading : d.stage = .reading)
    (found : Block.nextPart d.place d.reader = (.ok part, reader))
    (goes : d.step.stage = .reading) (v : Wire) : d.survey v = d.step.survey (v.after part) := by
  rw [survey]
  split
  · simp only [found, goes]
  · next other => exact absurd reading other

theorem survey_halts (halts : d.step.stage ≠ .reading) (v : Wire) : d.survey v = v := by
  rw [survey]
  split
  · split
    · contradiction
    · rfl
  · rfl

theorem prefix_survey (v : Wire) (d : Demultiplexer) :
    v.bytes <+: (d.survey v).bytes ∧
      Block.deliveries v.blocks <+: Block.deliveries (d.survey v).blocks := by
  fun_induction survey v d with
  | case1 v d reading part reader found goes ih =>
    exact ⟨(v.bytes_prefix_after part).trans ih.1, (v.deliveries_prefix_after part).trans ih.2⟩
  | case2 => exact ⟨List.prefix_rfl, List.prefix_rfl⟩
  | case3 => exact ⟨List.prefix_rfl, List.prefix_rfl⟩

/-- What is read of `data` until a verdict: all of it if the verdict is good, and otherwise what
stands before the fault. -/
structure Surveyed (max : UInt64) (origin : Nat) (data : Bytes) (verdict : Except EngineError Summary)
    (w : Wire) (rest : Bytes) : Prop where
  split : data = w.bytes ++ rest
  formed : ∀ b ∈ w.blocks, b.Formed max
  complete : ∀ s, verdict = .ok s → rest = [] ∧ w.unfinished = none
  corrupt : ∀ e, verdict = .error e →
    ∃ defect, e = .frame (.corrupt (origin + w.bytes.length) defect)

theorem Underway.surveyed (small : max.toNat < 2 ^ 63) (underway : d.Underway max origin v tail)
    (discards : d.Discards) :
    ∃ rest, Surveyed max origin (v.bytes ++ tail) d.scan (d.survey v) rest := by
  induction work : d.work using Nat.strong_induction_on generalizing d v tail with
  | _ n ih =>
    subst work
    have reading := underway.reading
    have less := work_step_lt d (.inl reading)
    rw [← scan_step (.inl reading)]
    cases underway.turn small with
    | @enters start lead rest header route reader found same whole decodes entry goes after =>
      subst same
      have others : d.step.Discards := by
        rw [goes]
        unfold Demultiplexer.heed
        split
        · exact fun e left => discards e (List.mem_of_mem_filter left)
        · exact discards
      have reached : v.after (.header start lead) = v.enter lead header := by
        simp [Wire.after, decodes]
      rw [survey_goes reading found after.reading, reached, ← List.append_assoc,
        ← Wire.bytes_enter whole]
      exact ih _ less after others rfl
    | @meets start record rest b route reader found same unfinished entry goes after =>
      subst same
      obtain rfl : route = .discard := discards _ entry
      rw [deliver] at goes
      rw [← goes] at after
      rw [survey_goes reading found after.reading, ← List.append_assoc,
        ← Wire.bytes_push unfinished]
      exact ih _ less after (by rw [goes]; exact discards) rfl
    | closes found same unfinished goes after =>
      subst same
      rw [survey_goes reading found after.reading, ← List.append_assoc,
        ← Wire.bytes_terminate unfinished]
      exact ih _ less after (by rw [goes]; exact discards) rfl
    | ends nothing whole nobody stops =>
      have stage : d.step.stage = .ending (.ok ()) := by rw [stops]
      rw [survey_halts (by simp [stage]), scan_ending stage]
      exact ⟨[], by rw [nothing], underway.formed, fun _ _ => ⟨rfl, whole⟩, by simp [Except.map]⟩
    | fails defect stage =>
      rw [survey_halts (by simp [stage]), scan_ending stage]
      refine ⟨tail, rfl, underway.formed, by simp [Except.map], fun e bad => ⟨defect, ?_⟩⟩
      exact (Except.error.inj bad).symm

end Demultiplexer
end DumpArchive
