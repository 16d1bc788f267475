import DumpArchive.Proofs.Receivers
import DumpArchive.Proofs.LateOpenings
import DumpArchive.Proofs.EngineComparison

/-! One turn of an engine and those that are registered with it. A turn serves on, ends one namespace
or shuts the registry, so whoever was registered is either still served or has been told the end. -/
namespace DumpArchive

namespace Demultiplexer

variable {d e : Demultiplexer} {labels : List (Namespace × Nat)} {part : Block.Part}
  {reader : Token.Reader}

/-- What a turn of the engine does to those that are registered. -/
inductive Stepped (d : Demultiplexer) (e : Demultiplexer) : Prop
  | rests : e = d → Stepped d e
  | keeps : e.roster = d.roster → e.ended = d.ended → d.stage = .reading →
    (e.stage = .reading ∨ ∃ result, e.stage = .ending result) → Stepped d e
  | offers {ns : Namespace} {number : Nat} {record : Bytes} : e.roster = d.roster →
    e.ended = d.ended → d.stage = .reading → d.current = some (ns, .outlet number) →
    e.stage = .offering ns number record → Stepped d e
  | ends {ns : Namespace} {route : Route} : d.roster.registry.find? ns = some route →
    e.roster.registry = d.roster.registry.close ns → e.ended = route.endedAfter d.ended →
    d.stage = .reading → e.stage = .reading → Stepped d e
  | shuts {result : Except EngineError Summary} : (∃ before, d.stage = .ending before) →
    e.roster.registry = d.roster.registry.finish ∨ e.roster.registry = d.roster.registry.abandon →
    e.ended = d.ended → e.stage = .stopped result → Stepped d e

theorem stepped_dispatch (reading : d.stage = .reading) (part : Block.Part) :
    Stepped d (({ d with reader } : Demultiplexer).dispatch part) := by
  cases part with
  | header offset record =>
    rw [dispatch]
    rcases readHeader_cases offset record { d with reader, place := .inside } with
      ⟨defect, rejects⟩ | ⟨header, route, -, found, goes⟩
    · rw [rejects]
      exact .keeps rfl rfl reading (.inr ⟨_, rfl⟩)
    · rw [goes, heed]
      split
      · exact .ends found rfl rfl reading reading
      · exact .keeps rfl rfl reading (.inl reading)
  | body offset record =>
    rw [dispatch]
    rcases readBody_cases offset record { d with reader } with
      ⟨defect, rejects⟩ | ⟨ns, route, current, delivers⟩
    · rw [rejects]
      exact .keeps rfl rfl reading (.inr ⟨_, rfl⟩)
    · rw [delivers]
      cases route with
      | discard => exact .keeps rfl rfl reading (.inl reading)
      | outlet number => exact .offers rfl rfl reading current rfl
  | close => exact .keeps rfl rfl reading (.inl reading)
  | finish offset =>
    rw [dispatch, readEnd]
    split
    · exact .keeps rfl rfl reading (.inr ⟨_, rfl⟩)
    · exact .keeps rfl rfl reading (.inr ⟨_, rfl⟩)

theorem stepped (d : Demultiplexer) : Stepped d d.step := by
  cases stage : d.stage with
  | reading =>
    cases found : Block.nextPart d.place d.reader with
    | mk result reader =>
      cases result with
      | error fault =>
        have fails : d.step = { d with reader, stage := .ending (.error (.frame fault)) } := by
          simp only [step, stage, found]
        rw [fails]
        exact .keeps rfl rfl stage (.inr ⟨_, rfl⟩)
      | ok part =>
        rw [step_of_part stage found]
        exact stepped_dispatch stage part
  | ending result =>
    cases result with
    | ok =>
      simp only [step, stage]
      exact .shuts ⟨_, stage⟩ (.inl rfl) rfl rfl
    | error fault =>
      simp only [step, stage]
      exact .shuts ⟨_, stage⟩ (.inr rfl) rfl rfl
  | idle => exact .rests (by simp only [step, stage])
  | offering => exact .rests (by simp only [step, stage])
  | stopped => exact .rests (by simp only [step, stage])

/-- Whoever has a label is registered under it or has ended, and nobody else has an outlet; an outlet
that has ended leads nowhere any more. -/
structure Sealed (labels : List (Namespace × Nat)) (d : Demultiplexer) : Prop where
  orderly : d.Orderly False
  begun : d.stage ≠ .idle
  valid : d.roster.registry.Valid
  routes : ∀ ns number, (ns, .outlet number) ∈ d.roster.registry.entries → (ns, number) ∈ labels
  past : ∀ ns number, (ns, .outlet number) ∈ d.roster.registry.entries → number ∉ d.ended
  offering : ∀ ns number record, d.stage = .offering ns number record →
    (ns, .outlet number) ∈ d.roster.registry.entries
  seated : (∀ result, d.stage ≠ .stopped result) → ∀ l ∈ labels,
    (l.1, .outlet l.2) ∈ d.roster.registry.entries ∨ l.2 ∈ d.ended

theorem Sealed.step (sealed : d.Sealed labels) (numbers : (labels.map (·.2)).Nodup) :
    d.step.Sealed labels := by
  have orderly := sealed.orderly.step
  have busy (reading : d.stage = .reading) : ∀ result, d.stage ≠ .stopped result := by simp [reading]
  cases d.stepped with
  | rests same => rwa [same]
  | keeps roster ended reading goes =>
    refine ⟨orderly, ?_, ?_, ?_, ?_, ?_, ?_⟩
    · rcases goes with stage | ⟨result, stage⟩ <;> simp [stage]
    · exact roster ▸ sealed.valid
    · exact roster ▸ sealed.routes
    · rw [roster, ended]
      exact sealed.past
    · intro ns number record stage
      rcases goes with other | ⟨result, other⟩ <;> simp [other] at stage
    · rw [roster, ended]
      exact fun _ => sealed.seated (busy reading)
  | @offers ns number record roster ended reading current stage =>
    refine ⟨orderly, by simp [stage], roster ▸ sealed.valid, roster ▸ sealed.routes, ?_, ?_, ?_⟩
    · rw [roster, ended]
      exact sealed.past
    · intro key outlet body here
      obtain ⟨rfl, rfl, rfl⟩ := Stage.offering.inj (stage.symm.trans here)
      rw [roster]
      exact sealed.orderly.current _ current
    · rw [roster, ended]
      exact fun _ => sealed.seated (busy reading)
  | @ends ns route found registry ended reading stage =>
    have entry := sealed.valid.find?_eq_some_iff.1 found
    refine ⟨orderly, by simp [stage], ?_, ?_, ?_, by simp [stage], ?_⟩
    · exact registry ▸ sealed.valid.close (List.mem_map_of_mem entry)
    · rw [registry]
      exact fun key number left => sealed.routes key number (List.mem_of_mem_filter left)
    · rw [registry, ended]
      intro key number left
      obtain ⟨old, apart⟩ := List.mem_filter.1 left
      have going := sealed.past key number old
      cases route with
      | discard => exact going
      | outlet other =>
        refine fun member => (List.mem_cons.1 member).elim ?_ going
        rintro rfl
        -- a number is given to one namespace only
        have same := List.inj_on_of_nodup_map numbers (sealed.routes key number old)
          (sealed.routes ns number entry) rfl
        exact of_decide_eq_true apart (congrArg Prod.fst same)
    · intro _ l member
      rw [registry, ended]
      rcases sealed.seated (busy reading) l member with served | past
      · by_cases same : l.1 = ns
        · have own := sealed.valid.find?_eq_some_iff.2 served
          rw [same, found] at own
          obtain rfl := Option.some.inj own
          exact .inr (List.mem_cons_self ..)
        · exact .inl (List.mem_filter.2 ⟨served, by simpa using same⟩)
      · refine .inr ?_
        cases route with
        | discard => exact past
        | outlet number => exact List.mem_cons_of_mem _ past
  | @shuts result ends registry ended stage =>
    have entries : ∀ entry ∈ d.step.roster.registry.entries, entry ∈ d.roster.registry.entries := by
      rcases registry with same | same <;> rw [same]
      · exact fun _ => id
      · simp [Registry.abandon]
    refine ⟨orderly, by simp [stage], ?_, ?_, ?_, by simp [stage], by simp [stage]⟩
    · rcases registry with same | same <;> rw [same]
      · exact sealed.valid.finish
      · exact sealed.valid.abandon
    · exact fun ns number left => sealed.routes ns number (entries _ left)
    · rw [ended]
      exact fun ns number left => sealed.past ns number (entries _ left)

theorem Sealed.resolve (sealed : d.Sealed labels) (taken : Bool) {ns : Namespace} {number : Nat}
    {record : Bytes} (stage : d.stage = .offering ns number record) :
    (d.resolve taken).Sealed labels := by
  obtain ⟨roster, ended⟩ := roster_resolve taken d
  have goes : (d.resolve taken).stage = .reading ∨
      ∃ result, (d.resolve taken).stage = .ending result := by
    cases taken with
    | true => exact .inl (by simp [Demultiplexer.resolve, stage])
    | false => exact .inr ⟨.error (.consumerGone ns.shown), by simp [Demultiplexer.resolve, stage]⟩
  refine ⟨sealed.orderly.resolve taken, ?_, roster ▸ sealed.valid, roster ▸ sealed.routes, ?_, ?_, ?_⟩
  · rcases goes with other | ⟨result, other⟩ <;> simp [other]
  · rw [roster, ended]
    exact sealed.past
  · intro key outlet body here
    rcases goes with other | ⟨result, other⟩ <;> simp [other] at here
  · rw [roster, ended]
    exact fun _ => sealed.seated (by simp [stage])

theorem signal_eq_ended_iff {number : Nat} : d.signal number = .ended ↔ number ∈ d.ended := by
  unfold Demultiplexer.signal
  split
  · next past => simp [past]
  · next going =>
    repeat' split
    all_goals simp [going]

/-- What a turn keeps of those that have ended. -/
theorem mem_ended_step {number : Nat} (past : number ∈ d.ended) : number ∈ d.step.ended := by
  cases d.stepped with
  | rests same => rwa [same]
  | keeps roster ended => rwa [ended]
  | offers roster ended => rwa [ended]
  | shuts ends registry ended => rwa [ended]
  | @ends ns route found registry ended =>
    rw [ended]
    cases route with
    | discard => exact past
    | outlet other => exact List.mem_cons_of_mem _ past

/-- Nobody finds the engine gone before it has stopped, and nobody waits for it after that. -/
theorem Sealed.signal (sealed : d.Sealed labels) {l : Namespace × Nat} (member : l ∈ labels) :
    (d.signal l.2 = .gone → ∃ result, d.stage = .stopped result) ∧
      (d.signal l.2 = .live → ∀ result, d.stage ≠ .stopped result) := by
  constructor
  · intro gone
    by_contra going
    rcases sealed.seated (fun result stage => going ⟨result, stage⟩) l member with served | past
    · have live : d.roster.registry.entries.any (·.2 = .outlet l.2) = true := by
        simpa using ⟨_, served⟩
      by_cases past : l.2 ∈ d.ended <;> simp [Demultiplexer.signal, live, past] at gone
    · simp [signal_eq_ended_iff.2 past] at gone
  · rintro live result stage
    have nobody : d.roster.registry.entries = [] := by
      obtain ⟨-, none | ⟨late, -⟩⟩ := sealed.orderly.stopped result stage
      · exact none
      · exact late.elim
    have idle : d.current = none := by
      cases current : d.current with
      | none => rfl
      | some entry =>
        have known := sealed.orderly.current entry current
        simp [nobody] at known
    unfold Demultiplexer.signal at live
    simp only [nobody, idle, List.any_nil, Bool.false_eq_true, if_false] at live
    split at live <;> contradiction

end Demultiplexer
end DumpArchive
