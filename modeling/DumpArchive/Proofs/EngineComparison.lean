import DumpArchive.Proofs.Scanning
import Mathlib.Data.List.Sort
import Mathlib.Data.String.Basic

/-! Two engines in front of one input that serve the same namespaces. Where the records go is of no
account for what they make of the input: as long as every record is taken, an engine with
consumers and one without take the same turns and find the same faults. -/
namespace DumpArchive

namespace Registry

variable {α : Type} {r : Registry α} {ns : Namespace}

theorem find?_isSome_iff : (r.find? ns).isSome ↔ ns ∈ r.keys := by
  simp [find?, keys]

end Registry

namespace Demultiplexer

variable {d e : Demultiplexer} {offset : Nat} {record : Bytes}

/-- The second engine stands where the first does, with its namespaces, but nobody waits for a
record of it. -/
structure Mirrors (d e : Demultiplexer) : Prop where
  reader : e.reader = d.reader
  stage : e.stage = d.stage
  place : e.place = d.place
  keys : e.roster.registry.keys.Perm d.roster.registry.keys
  current : e.current = d.current.map fun entry => (entry.1, .discard)
  summary : e.summary = d.summary
  discards : e.Discards

theorem Mirrors.reject (mirrors : d.Mirrors e) (offset : Nat) (defect : Defect) :
    (d.reject offset defect).Mirrors (e.reject offset defect) :=
  ⟨mirrors.reader, rfl, mirrors.place, mirrors.keys, mirrors.current, mirrors.summary,
    mirrors.discards⟩

theorem Mirrors.heed (mirrors : d.Mirrors e) (header : CollectionHeader) (route : Route) :
    (d.heed header route).Mirrors (e.heed header .discard) := by
  unfold Demultiplexer.heed
  split
  · refine ⟨mirrors.reader, mirrors.stage, mirrors.place, ?_, rfl, ?_, ?_⟩
    · simp only [conclude, Registry.keys_close]
      exact mirrors.keys.filter _
    · simp only [conclude, mirrors.summary]
    · exact fun entry left => mirrors.discards entry (List.mem_of_mem_filter left)
  · exact ⟨mirrors.reader, mirrors.stage, mirrors.place, mirrors.keys, rfl, mirrors.summary,
      mirrors.discards⟩

/-- A known namespace is found by both, and its records are not wanted by the second. -/
theorem Mirrors.find? (mirrors : d.Mirrors e) (ns : Namespace) :
    e.roster.registry.find? ns = (d.roster.registry.find? ns).map fun _ => .discard := by
  have same : (e.roster.registry.find? ns).isSome ↔ (d.roster.registry.find? ns).isSome := by
    rw [Registry.find?_isSome_iff, Registry.find?_isSome_iff]
    exact mirrors.keys.mem_iff
  cases there : d.roster.registry.find? ns with
  | none =>
    rw [there] at same
    simpa using same
  | some route =>
    rw [there] at same
    obtain ⟨other, found⟩ := Option.isSome_iff_exists.1 (same.2 rfl)
    obtain ⟨entry, first, rfl⟩ := Option.map_eq_some_iff.1 found
    simpa [mirrors.discards entry (List.mem_of_find?_eq_some first)] using found

theorem Mirrors.readHeader (mirrors : d.Mirrors e) (offset : Nat) (record : Bytes) :
    (d.readHeader offset record).Mirrors (e.readHeader offset record) := by
  cases decodes : CollectionHeader.ofRecord? record with
  | none =>
    simp only [Demultiplexer.readHeader, decodes]
    exact mirrors.reject ..
  | some header =>
    by_cases named : header.ns.isNamed = false
    · simp only [Demultiplexer.readHeader, decodes, named, if_true]
      exact mirrors.reject ..
    · have found := mirrors.find? header.ns
      cases known : d.roster.registry.find? header.ns with
      | none =>
        rw [known] at found
        simp only [Demultiplexer.readHeader, decodes, named, known, found]
        exact mirrors.reject ..
      | some route =>
        rw [known] at found
        have first : d.readHeader offset record = d.heed header route := by
          simp only [Demultiplexer.readHeader, decodes, named, known]
          cases route <;> rfl
        have second : e.readHeader offset record = e.heed header .discard := by
          simp only [Demultiplexer.readHeader, decodes, named, found]
          rfl
        rw [first, second]
        exact mirrors.heed header route

theorem resolve_of_ne (taken : Bool)
    (idle : ∀ ns outlet record, d.stage ≠ .offering ns outlet record) : d.resolve taken = d := by
  unfold resolve
  split
  · next ns outlet record stage => exact absurd stage (idle ns outlet record)
  · rfl

theorem Mirrors.readBody (mirrors : d.Mirrors e) (reading : d.stage = .reading) (offset : Nat)
    (record : Bytes) : ((d.readBody offset record).resolve true).Mirrors
      (e.readBody offset record) := by
  have idle := mirrors.current
  cases current : d.current with
  | none =>
    rw [current] at idle
    simp only [Demultiplexer.readBody, current, idle, Option.map_none]
    rw [resolve_of_ne true (by simp [Demultiplexer.reject])]
    exact mirrors.reject ..
  | some entry =>
    obtain ⟨ns, route⟩ := entry
    rw [current] at idle
    rw [readBody_eq offset record current, readBody_eq offset record idle]
    have counted : ({ d with summary := d.summary.count ns record } : Demultiplexer).Mirrors
        { e with summary := e.summary.count ns record } :=
      ⟨mirrors.reader, mirrors.stage, mirrors.place, mirrors.keys, mirrors.current,
        by rw [mirrors.summary], mirrors.discards⟩
    cases route with
    | discard =>
      rw [resolve_of_ne true (by simp [deliver, reading])]
      exact counted
    | outlet number =>
      have taken : (d.deliver ns record (.outlet number)).resolve true =
          { d with summary := d.summary.count ns record } := by
        simp [deliver, resolve, ← reading]
      rw [taken]
      exact counted

theorem readEnd_of_keys (offset : Nat) (d : Demultiplexer) :
    d.readEnd offset =
      if d.roster.registry.keys = [] then { d with stage := .ending (.ok ()) }
      else d.reject offset (.unfinished
        ((d.roster.registry.keys.map Namespace.shown).mergeSort (fun a b => a ≤ b))) := by
  unfold Demultiplexer.readEnd
  cases entries : d.roster.registry.entries with
  | nil => simp [Registry.keys, entries]
  | cons entry rest => simp [Registry.keys, entries, Function.comp_def]

/-- Whoever is left over is named, in an order of names. -/
theorem Mirrors.readEnd (mirrors : d.Mirrors e) (offset : Nat) :
    (d.readEnd offset).Mirrors (e.readEnd offset) := by
  have both : e.roster.registry.keys = [] ↔ d.roster.registry.keys = [] := by
    rw [← List.length_eq_zero_iff, mirrors.keys.length_eq, List.length_eq_zero_iff]
  rw [readEnd_of_keys, readEnd_of_keys]
  by_cases nobody : d.roster.registry.keys = []
  · rw [if_pos nobody, if_pos (both.2 nobody)]
    exact ⟨mirrors.reader, rfl, mirrors.place, mirrors.keys, mirrors.current, mirrors.summary,
      mirrors.discards⟩
  · have names := mirrors.keys.map Namespace.shown
    have sorted : (e.roster.registry.keys.map Namespace.shown).mergeSort (fun a b => a ≤ b) =
        (d.roster.registry.keys.map Namespace.shown).mergeSort (fun a b => a ≤ b) := by
      apply List.Perm.eq_of_sortedLE List.sortedLE_mergeSort List.sortedLE_mergeSort
      exact (List.mergeSort_perm ..).trans (names.trans (List.mergeSort_perm ..).symm)
    rw [if_neg nobody, if_neg (mt both.1 nobody), sorted]
    exact mirrors.reject ..

theorem Mirrors.dispatch (mirrors : d.Mirrors e) (reading : d.stage = .reading)
    (part : Block.Part) : ((d.dispatch part).resolve true).Mirrors (e.dispatch part) := by
  cases part with
  | header offset record =>
    have inside : ({ d with place := .inside } : Demultiplexer).Mirrors
        { e with place := .inside } :=
      ⟨mirrors.reader, mirrors.stage, rfl, mirrors.keys, mirrors.current, mirrors.summary,
        mirrors.discards⟩
    rw [Demultiplexer.dispatch, resolve_of_ne]
    · exact inside.readHeader offset record
    · rcases readHeader_cases offset record { d with place := .inside } with
        ⟨defect, rejects⟩ | ⟨header, route, -, -, goes⟩
      · simp [rejects, Demultiplexer.reject]
      · rw [goes, Demultiplexer.heed]
        split <;> simp [conclude, select, reading]
  | body offset record => exact mirrors.readBody reading offset record
  | close =>
    rw [resolve_of_ne true (by simp [Demultiplexer.dispatch, reading])]
    exact ⟨mirrors.reader, mirrors.stage, rfl, mirrors.keys, mirrors.current, mirrors.summary,
      mirrors.discards⟩
  | finish offset =>
    rw [Demultiplexer.dispatch, resolve_of_ne]
    · exact mirrors.readEnd offset
    · rw [readEnd_of_keys]
      split <;> simp [Demultiplexer.reject]

/-- When the record of a turn, if it has one, has been taken, both have gone on alike. -/
theorem Mirrors.step (mirrors : d.Mirrors e) (reading : d.stage = .reading) :
    (d.step.resolve true).Mirrors e.step := by
  have stage : e.stage = .reading := mirrors.stage.trans reading
  cases found : Block.nextPart d.place d.reader with
  | mk result next =>
    have again : Block.nextPart e.place e.reader = (result, next) := by
      rw [mirrors.place, mirrors.reader, found]
    cases result with
    | error fault =>
      have fails : d.step = { d with reader := next, stage := .ending (.error (.frame fault)) } := by
        simp only [Demultiplexer.step, reading, found]
      have same : e.step = { e with reader := next, stage := .ending (.error (.frame fault)) } := by
        simp only [Demultiplexer.step, stage, again]
      rw [fails, same, resolve_of_ne true (by simp)]
      exact ⟨rfl, rfl, mirrors.place, mirrors.keys, mirrors.current, mirrors.summary,
        mirrors.discards⟩
    | ok part =>
      rw [step_of_part reading found, step_of_part stage again]
      have behind : ({ d with reader := next } : Demultiplexer).Mirrors { e with reader := next } :=
        ⟨rfl, mirrors.stage, mirrors.place, mirrors.keys, mirrors.current, mirrors.summary,
          mirrors.discards⟩
      exact behind.dispatch reading part

end Demultiplexer
end DumpArchive
