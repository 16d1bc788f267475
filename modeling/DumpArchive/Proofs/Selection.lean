import DumpArchive.Proofs.RestoreSchedules

/-! Restoring some namespaces of an archive whose other namespaces are read past. Which ones are
asked for makes no difference to what is made of the input. -/
namespace DumpArchive
namespace Restore

open Demultiplexer (Hosts Restoring Settled)

variable {intents : List Intent} {a : Archive} {max : UInt64} {source : Source}
  {reader : Token.Reader}

/-- The catalog namespaces that nobody asks for. -/
def unwanted (intents : List Intent) (a : Archive) : List Namespace :=
  a.catalog.namespaces.filter (· ∉ intents.map (·.ns))

theorem perm_unwanted (distinct : (intents.map (·.ns)).Nodup)
    (known : ∀ i ∈ intents, i.ns ∈ a.catalog.namespaces) :
    (intents.map (·.ns) ++ unwanted intents a).Perm a.catalog.namespaces := by
  have apart : (intents.map (·.ns) ++ unwanted intents a).Nodup := by
    refine List.nodup_append.2 ⟨distinct, a.catalog.distinct.filter _, ?_⟩
    rintro ns wanted _ other rfl
    simpa [wanted] using (List.mem_filter.1 other).2
  refine (List.perm_ext_iff_of_nodup apart a.catalog.distinct).2 fun ns => ?_
  rw [List.mem_append, unwanted, List.mem_filter]
  constructor
  · rintro (wanted | ⟨listed, -⟩)
    · obtain ⟨i, member, rfl⟩ := List.mem_map.1 wanted
      exact known i member
    · exact listed
  · intro listed
    by_cases wanted : ns ∈ intents.map (·.ns)
    · exact .inl wanted
    · exact .inr ⟨listed, by simpa using wanted⟩

/-- Distinct namespaces of a catalog are all admitted: those that are asked for under numbers. -/
theorem prepare_eq (named : ∀ ns ∈ a.catalog.namespaces, ns.isNamed) (uncapped : a.cap = none)
    (distinct : (intents.map (·.ns)).Nodup) (known : ∀ i ∈ intents, i.ns ∈ a.catalog.namespaces) :
    ∃ roster, prepare intents a = .ok (crew 0 intents, roster) ∧
      roster.registry = { (.empty none : Registry Route) with
        entries := ((crew 0 intents).map Worker.label).map entryOf ++
          (unwanted intents a).map fun ns => (ns, .discard) } := by
  have permuted := perm_unwanted distinct known
  have apart := permuted.nodup_iff.2 a.catalog.distinct
  have all : ∀ ns ∈ intents.map (·.ns) ++ unwanted intents a, ns.isNamed :=
    fun ns member => named ns (permuted.mem_iff.1 member)
  obtain ⟨wanted, others⟩ := List.forall_mem_append.1 all
  have found : intents.find? (·.ns ∉ a.catalog.namespaces) = none := by
    apply List.find?_eq_none.2
    intro i member
    simpa using known i member
  obtain ⟨mid, enlisted, served⟩ := enlist_eq ⟨.empty a.cap, 0⟩
    (Registry.welcomes_empty wanted distinct uncapped)
  have keys : mid.registry.keys = intents.map (·.ns) := by
    rw [served, ← names_crew 0 intents]
    simp [Registry.keys, Registry.empty, entryOf, Function.comp_def]
  have welcomes : mid.registry.Welcomes (unwanted intents a) := by
    refine ⟨others, (List.nodup_append.1 apart).2.1, ?_, by rw [served]; rfl, by rw [served]; rfl,
      by rw [served]; exact uncapped⟩
    intro ns other
    rw [keys]
    simpa using (List.mem_filter.1 other).2
  obtain ⟨roster, discarded, entries⟩ := discardAll_eq mid welcomes
  refine ⟨roster, ?_, ?_⟩
  · simp only [prepare, found, enlisted]
    simp only [unwanted] at discarded
    simp only [discarded]
  · rw [entries, served, uncapped]
    rfl

/-- The engine of a restore and its workers before the first record, beside the engine of a
verification. -/
theorem exists_restoring {offset : Nat} {tail : Bytes}
    (named : ∀ ns ∈ a.catalog.namespaces, ns.isNamed) (uncapped : a.cap = none)
    (distinct : (intents.map (·.ns)).Nodup) (known : ∀ i ∈ intents, i.ns ∈ a.catalog.namespaces)
    (willing : ∀ i ∈ intents, i.Willing) (ahead : a.reader.At max offset tail) :
    ∃ d e, Restoring intents max offset .empty tail d (crew 0 intents) ∧ d.Mirrors e ∧
      verify a = e.scan ∧ restore intents a =
        let (engine, list) := Demultiplexer.drive workers d (crew 0 intents)
        (rootCause engine.result (dismiss engine list), dismiss engine list) := by
  obtain ⟨roster, prepared, served⟩ := prepare_eq named uncapped distinct known
  obtain ⟨engine, verifier⟩ := exists_verifier named
  have names : roster.registry.keys = intents.map (·.ns) ++ unwanted intents a := by
    rw [served, ← names_crew 0 intents]
    simp [Registry.keys, entryOf, Function.comp_def]
  have permuted := perm_unwanted distinct known
  have closed : roster.registry.closed = [] := by rw [served]; rfl
  have valid : roster.registry.Valid := by
    refine ⟨?_, names ▸ permuted.nodup_iff.2 a.catalog.distinct, by simp [closed], by simp [closed],
      by rw [served]; simp [Registry.empty]⟩
    intro ns member
    rw [names] at member
    exact named ns (permuted.mem_iff.1 member)
  let d := ({ Demultiplexer.start a.reader a.cap with roster } : Demultiplexer).run
  have hosts : Hosts ((crew 0 intents).map Worker.label) .empty d := by
    refine ⟨⟨names_crew 0 intents ▸ distinct, numbers_crew 0 intents ▸ List.nodup_range', ?_, ?_⟩,
      by simp [d, Demultiplexer.run, Demultiplexer.start, Wire.ended, Wire.empty, Wire.blocks],
      by simp [Wire.ended, Wire.empty, Wire.blocks]⟩
    · intro ns number entry
      have entry : (ns, Route.outlet number) ∈ roster.registry.entries := entry
      rw [served] at entry
      rcases List.mem_append.1 entry with wanted | other
      · obtain ⟨label, member, same⟩ := List.mem_map.1 wanted
        obtain ⟨rfl, number⟩ := Prod.mk.inj same
        obtain rfl := Route.outlet.inj number
        exact member
      · simp at other
    · intro label member
      have entry : entryOf label ∈ roster.registry.entries := by
        rw [served]
        exact List.mem_append_left _ (List.mem_map_of_mem member)
      exact .inl entry
  refine ⟨d, { engine with reader := a.reader }, ?_, ?_, ?_, ?_⟩
  · exact ⟨⟨rfl, ahead, fun _ => rfl, fun inside => (by cases inside),
      (by simp [Wire.empty, Wire.blocks]), valid, by simp [d, Demultiplexer.run]⟩, hosts,
      storing_crew willing 0⟩
  · have keys : engine.roster.registry.keys.Perm roster.registry.keys := by
      rw [names, verifier.keys]
      exact permuted.symm
    exact ⟨rfl, verifier.reading, verifier.place, keys, verifier.current, verifier.summary,
      verifier.discards⟩
  · rw [← verifier.verifies, ← uncapped]
  · simp only [restore, prepared]
    rfl

theorem rootCause_ok {s : Summary} {list : List Worker} (calm : ∀ w ∈ list, w.trouble = none) :
    rootCause (.ok s) list = .ok s := by
  simp only [rootCause]
  split
  · next failed _ => cases failed
  · next failed _ => cases failed
  · next e _ blamed =>
    obtain ⟨w, member, blames⟩ := List.exists_of_findSome?_eq_some blamed
    simp [calm w member] at blames
  · next same _ => rw [Except.ok.inj same]

section Settled

variable {origin : Nat} {data rest : Bytes} {verdict : Except EngineError Summary} {w : Wire}
  {last : Demultiplexer} {list : List Worker}

theorem stored_dismiss (settled : Settled intents max origin data verdict w rest last list) :
    List.Forall₂ (Stored w.blocks) intents (dismiss last list) := by
  apply List.forall₂_map_right_iff.2
  exact settled.storing.imp fun i worker storing => storing.toStored.conclude _

/-- Whoever was told of the end of its namespace has flushed, and all others know that the engine is
gone. -/
theorem concluded_dismiss (settled : Settled intents max origin data verdict w rest last list)
    (steady : ∀ i ∈ intents, i.Steady) :
    List.Forall₂ (fun i worker => if i.ns ∈ w.ended then Flushed i worker else Deserted i worker)
      intents (dismiss last list) := by
  apply List.forall₂_map_right_iff.2
  have storing := settled.storing
  rw [List.forall₂_iff_zip] at storing ⊢
  refine ⟨storing.1, fun {i worker} pair => ?_⟩
  obtain ⟨asked, member⟩ := List.of_mem_zip pair
  have own := storing.2 pair
  rw [settled.signals worker member, own.ns]
  split
  · exact own.flushed (steady i asked)
  · exact own.deserted

theorem flushed_dismiss {s : Summary}
    (settled : Settled intents max origin data (.ok s) w rest last list)
    (steady : ∀ i ∈ intents, i.Steady) : List.Forall₂ Flushed intents (dismiss last list) := by
  obtain ⟨-, -, ended⟩ := settled.complete s rfl
  have storing := settled.storing
  have concluded := concluded_dismiss settled steady
  rw [dismiss, List.forall₂_map_right_iff] at concluded ⊢
  rw [List.forall₂_iff_zip] at storing concluded ⊢
  refine ⟨storing.1, fun {i worker} pair => ?_⟩
  have past : i.ns ∈ w.ended := (storing.2 pair).ns ▸ ended worker (List.of_mem_zip pair).2
  simpa only [past, if_true] using concluded.2 pair

theorem calm_of_flushed (flushed : List.Forall₂ Flushed intents list) :
    ∀ w ∈ list, w.trouble = none := by
  induction flushed with
  | nil => simp
  | cons first rest ih => exact List.forall_mem_cons.2 ⟨first.calm, ih⟩

/-- Workers that can flush change nothing about the verdict. -/
theorem rootCause_dismiss (settled : Settled intents max origin data verdict w rest last list)
    (steady : ∀ i ∈ intents, i.Steady) : rootCause last.result (dismiss last list) = verdict := by
  rw [settled.result]
  cases verdict with
  | ok s => exact rootCause_ok (calm_of_flushed (flushed_dismiss settled steady))
  | error e =>
    obtain ⟨defect, rfl⟩ := settled.corrupt e rfl
    rfl

end Settled

/-- A restore comes to its stop: behind the front, the blocks as far as the input has them have
been stored. -/
theorem exists_settled (sound : source.schedule.Sound) (small : max.toNat < 2 ^ 63)
    (opened : openArchive source max none = (.ok a, reader))
    (distinct : (intents.map (·.ns)).Nodup) (known : ∀ i ∈ intents, i.ns ∈ a.catalog.namespaces)
    (willing : ∀ i ∈ intents, i.Willing) :
    ∃ (f : Catalog.Front) (w : Wire) (tail : Bytes) (last : Demultiplexer) (list : List Worker),
      source.pending = f.bytes ++ (w.bytes ++ tail) ∧ f.Formed max ∧ a.catalog.Of f ∧
      Settled intents max f.bytes.length (w.bytes ++ tail) (verify a) w tail last list ∧
      restore intents a = (rootCause last.result (dismiss last list), dismiss last list) := by
  obtain ⟨found, rfl, uncapped⟩ := openArchive_eq_ok_iff.1 opened
  have start := Token.Reader.at_start sound max
  obtain ⟨f, rest, formed, split, same, stands⟩ := Catalog.front_of_read small start found
  rw [split] at start
  have ahead := (Catalog.balanced_of_read found).stands start stands
  obtain ⟨d, e, restoring, mirrors, verdict, restored⟩ :=
    exists_restoring (same.named formed) uncapped distinct known willing ahead
  obtain ⟨w, tail, last, list, driven, settled⟩ := restoring.settled small mirrors
  rw [driven] at restored
  have whole : rest = w.bytes ++ tail := settled.split
  rw [← verdict, Nat.zero_add] at settled
  subst whole
  exact ⟨f, w, tail, last, list, split, formed, same, settled, restored⟩

/-- What becomes of the input does not depend on what is restored. -/
theorem restore_fst (sound : source.schedule.Sound) (small : max.toNat < 2 ^ 63)
    (opened : openArchive source max none = (.ok a, reader))
    (distinct : (intents.map (·.ns)).Nodup) (known : ∀ i ∈ intents, i.ns ∈ a.catalog.namespaces)
    (willing : ∀ i ∈ intents, i.Willing) (steady : ∀ i ∈ intents, i.Steady) :
    (restore intents a).1 = verify a := by
  obtain ⟨f, w, tail, last, list, -, -, -, settled, restored⟩ :=
    exists_settled sound small opened distinct known willing
  rw [restored]
  exact rootCause_dismiss settled steady

/-- Restoring distinct namespaces into destinations that never fail is verifying: both come to the
same summary or the same error, in whatever order the engine and the workers have their turns. What
stands before the end or the fault is stored, the records of each namespace in its own destination
and nothing else there. A worker that was told of the end of its namespace has flushed once, after
the last of them; every other one has found the engine gone, and there is none of those after a good
end. -/
theorem restore_verify (sound : source.schedule.Sound) (small : max.toNat < 2 ^ 63)
    (opened : openArchive source max none = (.ok a, reader))
    (distinct : (intents.map (·.ns)).Nodup) (known : ∀ i ∈ intents, i.ns ∈ a.catalog.namespaces)
    (willing : ∀ i ∈ intents, i.Willing) (steady : ∀ i ∈ intents, i.Steady) :
    (∃ p, Pool.muster intents a = .ok p ∧
      (∀ schedule, (p.execute schedule).isDone →
        (p.execute schedule).outcome = restore intents a) ∧
      ∀ schedule, Rounds p.actors (p.work + 1) schedule → (p.execute schedule).isDone) ∧
    (restore intents a).1 = verify a ∧
    ∃ (f : Catalog.Front) (w : Wire) (tail : Bytes),
      source.pending = f.bytes ++ (w.bytes ++ tail) ∧ f.Formed max ∧ a.catalog.Of f ∧
      (∀ b ∈ w.blocks, b.Formed max) ∧
      List.Forall₂ (Stored w.blocks) intents (restore intents a).2 ∧
      List.Forall₂ (fun i worker => if i.ns ∈ w.ended then Flushed i worker else Deserted i worker)
        intents (restore intents a).2 ∧
      (∀ s, (restore intents a).1 = .ok s → tail = [] ∧ w.unfinished = none ∧
        List.Forall₂ Flushed intents (restore intents a).2) ∧
      ∀ e, (restore intents a).1 = .error e →
        ∃ defect, e = .frame (.corrupt (f.bytes.length + w.bytes.length) defect) := by
  obtain ⟨f, w, tail, last, list, split, formed, same, settled, restored⟩ :=
    exists_settled sound small opened distinct known willing
  have verdict := restore_fst sound small opened distinct known willing steady
  have uncapped := (openArchive_eq_ok_iff.1 opened).2.2
  obtain ⟨roster, prepared, -⟩ := prepare_eq (same.named formed) uncapped distinct known
  have starts : ∃ p, Pool.muster intents a = .ok p := by
    simp only [Pool.muster, prepared, Except.ok.injEq, exists_eq']
  obtain ⟨p, mustered⟩ := starts
  rw [verdict]
  refine ⟨⟨p, mustered, outcome_execute mustered, fun _ => isDone_execute mustered⟩, rfl, f, w, tail,
    split, formed, same, settled.formed, ?_, ?_, ?_, settled.corrupt⟩
  · rw [restored]
    exact stored_dismiss settled
  · rw [restored]
    exact concluded_dismiss settled steady
  · intro s good
    obtain ⟨nothing, whole, -⟩ := settled.complete s good
    rw [restored]
    exact ⟨nothing, whole, flushed_dismiss (good ▸ settled) steady⟩

/-- The input breaks off in the block of the second namespace, after a whole record: the worker of the
first has flushed behind its record, the other has stored its own and finds the engine gone. -/
theorem restore_verify_cut_block :
    let c : Catalog := ⟨.current 1, [⟨⟨"a", "b"⟩, "{}"⟩, ⟨⟨"c", "d"⟩, "{}"⟩], by simp⟩
    let data := c.front.bytes ++ ((Block.ofHeader ⟨⟨"a", "b"⟩, false⟩ [[5, 0, 0, 0, 0]]).bytes ++
      ((Block.ofHeader ⟨⟨"a", "b"⟩, true⟩ []).bytes ++
        (CollectionHeader.record ⟨⟨"c", "d"⟩, false⟩ ++ [6, 0, 0, 0, 1, 0])))
    let intents : List Intent := [⟨⟨"a", "b"⟩, .opens .empty⟩, ⟨⟨"c", "d"⟩, .opens .empty⟩]
    ∃ a reader, openArchive (.ofBytes data) 128 none = (.ok a, reader) ∧
      (restore intents a).1 = verify a ∧
      verify a = .error (.frame (.corrupt data.length .openBlock)) ∧
      (restore intents a).2.map (fun w => (w.sink.accepted, w.sink.flushedAt, w.trouble)) =
        [([5, 0, 0, 0, 0], [5], none), ([6, 0, 0, 0, 1, 0], [], some (.engineGone "c.d"))] ∧
      ∃ p, Pool.muster intents a = .ok p ∧ ∀ schedule, Rounds p.actors (p.work + 1) schedule →
        (p.execute schedule).outcome.1 = verify a := by
  intro c data intents
  let result := (openArchive (.ofBytes data) 128 none).1.toOption
  have listed : result.map (·.catalog.namespaces) = some [⟨"a", "b"⟩, ⟨"c", "d"⟩] := by
    decide +kernel
  have verdict : result.map verify =
      some (.error (.frame (.corrupt data.length .openBlock))) := by decide +kernel
  have stored : result.map (fun a => (restore intents a).2.map fun w =>
      (w.sink.accepted, w.sink.flushedAt, w.trouble)) =
      some [([5, 0, 0, 0, 0], [5], none), ([6, 0, 0, 0, 1, 0], [], some (.engineGone "c.d"))] := by
    decide +kernel
  cases opened : openArchive (.ofBytes data) 128 none with
  | mk answer reader =>
    simp only [result, opened] at listed verdict stored
    cases answer with
    | error e => contradiction
    | ok a =>
      replace listed := Option.some.inj listed
      have known : ∀ i ∈ intents, i.ns ∈ a.catalog.namespaces := by simp [intents, listed]
      have willing : ∀ i ∈ intents, i.Willing := by
        simpa [intents] using ⟨⟨.empty, rfl, Sink.sound_empty.takes⟩, .empty, rfl,
          Sink.sound_empty.takes⟩
      have steady : ∀ i ∈ intents, i.Steady := by
        intro i member sink opens
        have same : sink = .empty := by
          rcases List.mem_pair.1 member with rfl | rfl <;> exact (Destination.opens.inj opens).symm
        rw [same]
        rfl
      obtain ⟨⟨p, mustered, alike, turns⟩, agree, -⟩ :=
        restore_verify Stream.Schedule.sound_steady (by decide) opened (by decide) known willing
          steady
      refine ⟨a, reader, rfl, agree, Option.some.inj verdict, Option.some.inj stored, p, mustered, ?_⟩
      intro schedule rounds
      rw [alike schedule (turns schedule rounds), agree]

end Restore
end DumpArchive
