import DumpArchive.Proofs.Dispatch
import DumpArchive.Restore

/-! A demultiplexer without consumers. It comes to a summary on just those streams of blocks that
its registry asks for, and counts every record of them. -/
namespace DumpArchive
namespace Demultiplexer

variable {d : Demultiplexer} {max : UInt64} {rest : Rest}

section Drive

variable {σ : Type} {consumers : Consumers σ}

/-- The consumers do nothing until they are offered a record. -/
def Consumers.Still (consumers : Consumers σ) : Prop :=
  ∀ signal roster state, consumers.wake signal roster state = (roster, state)

theorem drive_step (still : consumers.Still)
    (busy : d.stage = .reading ∨ ∃ result, d.stage = .ending result) (state : σ) :
    drive consumers d state = drive consumers d.step state := by
  rw [drive]
  simp only [still d.signal]
  rcases busy with stage | ⟨result, stage⟩
  all_goals split <;> first | rfl | simp_all

theorem drive_stopped (still : consumers.Still) {result : Except EngineError Summary}
    (stage : d.stage = .stopped result) (state : σ) :
    drive consumers d state = (d, state) := by
  rw [drive]
  simp only [still d.signal]
  split <;> first | rfl | simp_all

theorem drive_offering (still : consumers.Still) {ns : Namespace} {outlet : Nat} {record : Bytes}
    {state next : σ} {taken : Bool} (stage : d.stage = .offering ns outlet record)
    (offered : consumers.offer outlet record d.roster state = (taken, d.roster, next)) :
    drive consumers d state = drive consumers (d.resolve taken) next := by
  rw [drive]
  simp only [still d.signal]
  split
  · next key number body here =>
    obtain ⟨rfl, rfl, rfl⟩ := Stage.offering.inj (stage.symm.trans here)
    let answer := consumers.offer outlet record d.roster state
    change drive consumers (({ d with roster := answer.2.1 } : Demultiplexer).resolve answer.1)
      answer.2.2 = _
    rw [show answer = _ from offered]
  all_goals simp_all

end Drive

theorem still_none : Consumers.none.Still := fun _ _ _ => rfl

/-- What a run without consumers comes to. -/
def scan (d : Demultiplexer) : Except EngineError Summary := (drive .none d ()).1.result

theorem scan_step (busy : d.stage = .reading ∨ ∃ result, d.stage = .ending result) :
    d.step.scan = d.scan := by
  rw [scan, scan, drive_step still_none busy]

theorem scan_stopped {result : Except EngineError Summary} (stage : d.stage = .stopped result) :
    d.scan = result := by
  rw [scan, drive_stopped still_none stage, Demultiplexer.result, stage]

theorem scan_ending {result : Except EngineError Unit} (stage : d.stage = .ending result) :
    d.scan = result.map fun _ => d.summary := by
  rw [← scan_step (.inr ⟨result, stage⟩)]
  cases result with
  | ok => exact scan_stopped (by simp [step, stage, Except.map])
  | error e => exact scan_stopped (by simp [step, stage, Except.map])

theorem scan_reject (offset : Nat) (defect : Defect) (d : Demultiplexer) (s : Summary) :
    (d.reject offset defect).scan ≠ .ok s := by
  rw [scan_ending (d := d.reject offset defect) rfl]
  simp [Except.map]

/-- Nobody is registered who would want a record. -/
def Discards (d : Demultiplexer) : Prop :=
  ∀ e ∈ d.roster.registry.entries, e.2 = .discard

/-- Every stream of blocks that the registry asks for is read to its end. -/
theorem Reads.scan (small : max.toNat < 2 ^ 63) (reads : d.Reads max rest)
    (discards : d.Discards) : d.scan = .ok (rest.summary d.summary) := by
  -- by what is left to do: a turn takes one part, and the rest behind it is again to be read
  induction work : d.work using Nat.strong_induction_on generalizing d rest with
  | _ n ih =>
    subst work
    have less := work_step_lt d (.inl reads.reading)
    rw [← scan_step (.inl reads.reading)]
    cases rest with
    | between blocks =>
      cases blocks with
      | nil =>
        obtain ⟨-, reader, taken⟩ := reads.step_finish
        rw [taken, scan_ending rfl]
        rfl
      | cons b blocks =>
        cases ends : b.header.eof with
        | false =>
          obtain ⟨reader, route, entry, taken, after⟩ := reads.step_select small ends
          rw [ih _ less after (by rw [taken]; exact discards) rfl, taken]
          simp [Rest.summary, Summary.absorb, ends, select]
        | true =>
          obtain ⟨reader, route, entry, taken, after⟩ := reads.step_conclude small ends
          have others : d.step.Discards := by
            rw [taken]
            exact fun e left => discards e (List.mem_of_mem_filter left)
          rw [ih _ less after others rfl, taken]
          simp [Rest.summary, Summary.absorb, ends, conclude]
    | inside ns records blocks =>
      cases records with
      | nil =>
        obtain ⟨reader, taken, after⟩ := reads.step_close small (.inl ⟨ns, rfl⟩)
        rw [ih _ less after (by rw [taken]; exact discards) rfl, taken]
        rfl
      | cons record records =>
        obtain ⟨reader, route, entry, taken, after⟩ := reads.step_body small
        obtain rfl : route = .discard := discards _ entry
        rw [deliver] at taken
        rw [← taken] at after
        rw [ih _ less after (by rw [taken]; exact discards) rfl, taken]
        rfl
    | ending blocks =>
      obtain ⟨reader, taken, after⟩ := reads.step_close small (.inr rfl)
      rw [ih _ less after (by rw [taken]; exact discards) rfl, taken]
      rfl

/-- A demultiplexer in the middle of its input, whatever that is. -/
structure Scans (d : Demultiplexer) (max : UInt64) (w : Bytes) : Prop where
  reading : d.stage = .reading
  ahead : ∃ offset, d.reader.At max offset w
  valid : d.roster.registry.Valid
  discards : d.Discards
  current : ∀ e ∈ d.current, e ∈ d.roster.registry.entries

/-- What is ahead is what the registry asks for. -/
def Fits (d : Demultiplexer) (max : UInt64) (w : Bytes) : Prop :=
  ∃ rest : Rest, rest.bytes = w ∧ d.Reads max rest

variable {w record : Bytes} {s : Summary}

/-- Inside a block there are records, if it has a namespace, and then a delimiter. -/
theorem Fits.inside (fits : d.Fits max w) (place : d.place = .inside) :
    ∃ records blocks, w = records.flatten ++ (Token.delimiterBytes ++ blocks.flatMap Block.bytes) ∧
      (∀ r ∈ records, Record.Formed max r) ∧ (∀ b ∈ blocks, Block.Formed max b) ∧
      Block.Fulfils d.roster.registry.keys blocks ∧ (d.current = none → records = []) := by
  obtain ⟨rest, rfl, reads⟩ := fits
  have stands := reads.place
  cases rest with
  | between blocks => simp [place] at stands
  | inside ns records blocks =>
    obtain ⟨route, current, -⟩ := reads.current _ _ _ rfl
    exact ⟨records, blocks, rfl, reads.formed.1, reads.formed.2, reads.fulfils, by simp [current]⟩
  | ending blocks => exact ⟨[], blocks, rfl, by simp, reads.formed.2, reads.fulfils, fun _ => rfl⟩

theorem Fits.between (fits : d.Fits max w) (place : d.place = .between) :
    ∃ blocks : List Block, w = blocks.flatMap Block.bytes ∧ (∀ b ∈ blocks, b.Formed max) ∧
      Block.Fulfils d.roster.registry.keys blocks := by
  obtain ⟨rest, rfl, reads⟩ := fits
  have stands := reads.place
  cases rest with
  | between blocks => exact ⟨blocks, rfl, reads.formed.2, reads.fulfils⟩
  | inside ns records blocks => simp [place] at stands
  | ending blocks => simp [place] at stands

/-- A header of a registered namespace, with what is taken up or ended by it. -/
def heed (header : CollectionHeader) (route : Route) (d : Demultiplexer) : Demultiplexer :=
  if header.eof then d.conclude header.ns route else d.select header.ns route

theorem readHeader_cases (offset : Nat) (record : Bytes) (d : Demultiplexer) :
    (∃ defect, d.readHeader offset record = d.reject offset defect) ∨
    ∃ header route, CollectionHeader.ofRecord? record = some header ∧
      d.roster.registry.find? header.ns = some route ∧
      d.readHeader offset record = d.heed header route := by
  unfold readHeader
  split
  · exact .inl ⟨_, rfl⟩
  · next header decodes =>
    simp only
    split
    · exact .inl ⟨_, rfl⟩
    · split
      · exact .inl ⟨_, rfl⟩
      · next route found =>
        refine .inr ⟨header, route, decodes, found, ?_⟩
        cases route <;> rfl

theorem readBody_cases (offset : Nat) (record : Bytes) (d : Demultiplexer) :
    (∃ defect, d.readBody offset record = d.reject offset defect) ∨
    ∃ ns route, d.current = some (ns, route) ∧
      d.readBody offset record = d.deliver ns record route := by
  cases current : d.current with
  | none => exact .inl ⟨.orphanRecord, by simp [readBody, current]⟩
  | some entry => exact .inr ⟨entry.1, entry.2, rfl, readBody_eq offset record current⟩

theorem readEnd_cases (offset : Nat) (d : Demultiplexer) :
    (∃ defect, d.readEnd offset = d.reject offset defect) ∨ d.roster.registry.entries = [] := by
  unfold readEnd
  split
  · next nobody => exact .inr nobody
  · exact .inl ⟨_, rfl⟩

theorem Scans.heed {header : CollectionHeader} {route : Route} {next : Token.Reader}
    (scans : d.Scans max (record ++ w)) (ahead : ∃ offset, next.At max offset w)
    (entry : (header.ns, route) ∈ d.roster.registry.entries) :
    (({ d with reader := next, place := .inside } : Demultiplexer).heed header route).Scans max w := by
  unfold Demultiplexer.heed
  split
  · exact ⟨scans.reading, ahead, scans.valid.close (List.mem_map_of_mem entry),
      fun e left => scans.discards e (List.mem_of_mem_filter left), by simp [conclude]⟩
  · exact ⟨scans.reading, ahead, scans.valid, scans.discards, by simpa [select] using entry⟩

theorem Scans.fits_header {header : CollectionHeader} {route : Route} {next : Token.Reader}
    (scans : d.Scans max (record ++ w)) (place : d.place = .between)
    (formed : Record.Formed max record)
    (decodes : CollectionHeader.ofRecord? record = some header)
    (entry : (header.ns, route) ∈ d.roster.registry.entries)
    (fits : (({ d with reader := next, place := .inside } : Demultiplexer).heed header route).Fits
      max w) : d.Fits max (record ++ w) := by
  obtain ⟨offset, ahead⟩ := scans.ahead
  have member := List.mem_map_of_mem (f := Prod.fst) entry
  have inside : (({ d with reader := next, place := .inside } : Demultiplexer).heed
      header route).place = .inside := by
    unfold Demultiplexer.heed
    split <;> rfl
  obtain ⟨records, blocks, rfl, body, others, fulfils, bare⟩ := fits.inside inside
  have whole : record ++ (records.flatten ++ (Token.delimiterBytes ++
      blocks.flatMap Block.bytes)) =
      (Rest.between (⟨record, header, records⟩ :: blocks)).bytes := by
    simp [Rest.bytes, Block.bytes, Block.front]
  rw [whole] at ahead ⊢
  refine ⟨_, rfl, scans.reading, place, ⟨offset, ahead⟩,
    ⟨by simp, List.forall_mem_cons.2 ⟨⟨formed, decodes, body⟩, others⟩⟩, scans.valid,
    ⟨member, fun ends => bare ?_, ?_⟩, by simp⟩
  · have ends : header.eof = true := ends
    simp [Demultiplexer.heed, ends, conclude]
  · cases ends : header.eof with
    | true => simpa [Demultiplexer.heed, Block.remaining, ends, conclude, Registry.keys_close] using fulfils
    | false => simpa [Demultiplexer.heed, Block.remaining, ends, select] using fulfils

theorem Scans.fits_body {ns : Namespace} {route : Route} {next : Token.Reader}
    (scans : d.Scans max (record ++ w)) (place : d.place = .inside)
    (formed : Record.Formed max record) (current : d.current = some (ns, route))
    (fits : ({ d with reader := next, summary := d.summary.count ns record } : Demultiplexer).Fits
      max w) : d.Fits max (record ++ w) := by
  obtain ⟨offset, ahead⟩ := scans.ahead
  obtain ⟨records, blocks, rfl, body, others, fulfils, -⟩ := fits.inside place
  have whole : record ++ (records.flatten ++ (Token.delimiterBytes ++
      blocks.flatMap Block.bytes)) = (Rest.inside ns (record :: records) blocks).bytes := by
    simp [Rest.bytes]
  rw [whole] at ahead ⊢
  refine ⟨_, rfl, scans.reading, place, ⟨offset, ahead⟩,
    ⟨List.forall_mem_cons.2 ⟨formed, body⟩, others⟩, scans.valid, fulfils, ?_⟩
  intro key list rest same
  obtain ⟨rfl, -, -⟩ := by simpa using same
  exact ⟨route, current, scans.current _ current⟩

theorem Scans.fits_close {next : Token.Reader}
    (scans : d.Scans max (Token.delimiterBytes ++ w)) (place : d.place = .inside)
    (fits : ({ d with reader := next, place := .between } : Demultiplexer).Fits max w) :
    d.Fits max (Token.delimiterBytes ++ w) := by
  obtain ⟨blocks, rfl, formed, fulfils⟩ := fits.between rfl
  exact ⟨.ending blocks, rfl, scans.reading, place, scans.ahead, ⟨by simp, formed⟩, scans.valid,
    fulfils, by simp⟩

/-- What it reads without complaint is what the registry asks for. -/
theorem Scans.fits (small : max.toNat < 2 ^ 63) (scans : d.Scans max w)
    (passed : d.scan = .ok s) : d.Fits max w := by
  -- the same induction from the other side: the part that was taken stands at the front of `w`
  induction work : d.work using Nat.strong_induction_on generalizing d w with
  | _ n ih =>
    subst work
    have less := work_step_lt d (.inl scans.reading)
    rw [← scan_step (.inl scans.reading)] at passed
    obtain ⟨offset, ahead⟩ := scans.ahead
    cases found : Block.nextPart d.place d.reader with
    | mk result next =>
      cases result with
      | error e =>
        have fails : d.step.stage = .ending (.error (.frame e)) := by
          simp [step, scans.reading, found]
        simp [scan_ending fails, Except.map] at passed
      | ok part =>
        obtain ⟨rest, fronted, after⟩ := Block.fronted_of_nextPart small ahead found
        have again : d.step.Scans max rest → d.step.Fits max rest :=
          fun scans => ih _ less scans passed rfl
        rw [step_of_part scans.reading found] at passed again
        generalize place : d.place = stands at fronted
        cases fronted with
        | @header start record rest formed =>
          simp only [dispatch] at passed again
          rcases readHeader_cases start record { d with reader := next, place := .inside } with
            ⟨defect, rejects⟩ | ⟨header, route, decodes, known, goes⟩
          · exact absurd (rejects ▸ passed) (scan_reject _ _ _ s)
          · have entry := scans.valid.find?_eq_some_iff.1 known
            rw [goes] at again
            exact scans.fits_header place formed decodes entry (again (scans.heed after entry))
        | @body start record rest formed =>
          simp only [dispatch] at passed again
          rcases readBody_cases start record { d with reader := next } with
            ⟨defect, rejects⟩ | ⟨ns, route, current, goes⟩
          · exact absurd (rejects ▸ passed) (scan_reject _ _ _ s)
          · have entry := scans.current _ current
            obtain rfl : route = .discard := scans.discards _ entry
            rw [goes] at again
            exact scans.fits_body place formed current
              (again ⟨scans.reading, after, scans.valid, scans.discards, scans.current⟩)
        | @close rest =>
          exact scans.fits_close place
            (again ⟨scans.reading, after, scans.valid, scans.discards, scans.current⟩)
        | @finish start =>
          simp only [dispatch] at passed
          rcases readEnd_cases start { d with reader := next } with ⟨defect, rejects⟩ | nobody
          · exact absurd (rejects ▸ passed) (scan_reject _ _ _ s)
          · have nobody : d.roster.registry.keys = [] := by
              simpa [Registry.keys] using nobody
            exact ⟨.between [], rfl, scans.reading, place, scans.ahead, by simp, scans.valid,
              nobody, by simp⟩

end Demultiplexer

namespace Restore

theorem discardAll_eq {namespaces : List Namespace} (roster : Roster)
    (welcomes : roster.registry.Welcomes namespaces) :
    ∃ next, discardAll namespaces roster = .ok next ∧
      next.registry = { roster.registry with
        entries := roster.registry.entries ++ namespaces.map fun ns => (ns, .discard) } := by
  induction namespaces generalizing roster with
  | nil => exact ⟨roster, rfl, by simp⟩
  | cons ns rest ih =>
    have added := Registry.add_eq_ok_iff (a := Route.discard).2 ⟨welcomes.admits, rfl⟩
    obtain ⟨next, discarded, entries⟩ :=
      ih { roster with registry := roster.registry.insert ns .discard } welcomes.insert
    refine ⟨next, ?_, ?_⟩
    · simp only [discardAll, Roster.discard?, added, discarded]
    · rw [entries]
      simp [Registry.insert]

/-- The engine that verifies archives of a catalog: all of its namespaces are discarded. -/
structure Verifier (c : Catalog) (d : Demultiplexer) : Prop where
  reading : d.stage = .reading
  place : d.place = .between
  keys : d.roster.registry.keys = c.namespaces
  valid : d.roster.registry.Valid
  discards : d.Discards
  current : d.current = none
  summary : d.summary = .empty
  verifies : ∀ reader, verify ⟨reader, c, none⟩ = ({ d with reader } : Demultiplexer).scan

theorem exists_verifier {c : Catalog} (named : ∀ ns ∈ c.namespaces, ns.isNamed) :
    ∃ d, Verifier c d := by
  obtain ⟨roster, discarded, entries⟩ := discardAll_eq ⟨.empty none, 0⟩
    (Registry.welcomes_empty named c.distinct rfl)
  have keys : roster.registry.keys = c.namespaces := by
    simp [Registry.keys, entries, Registry.empty, Function.comp_def]
  have closed : roster.registry.closed = [] := by rw [entries]; rfl
  have cap : roster.registry.cap = none := by rw [entries]; rfl
  have valid : roster.registry.Valid :=
    ⟨keys ▸ named, keys ▸ c.distinct, by simp [closed], by simp [closed], by simp [cap]⟩
  have discards : ∀ e ∈ roster.registry.entries, e.2 = .discard := by
    intro e member
    rw [entries] at member
    obtain ⟨ns, -, rfl⟩ := List.mem_map.1 (by simpa [Registry.empty] using member)
    rfl
  refine ⟨({ Demultiplexer.start (.start (.ofBytes []) 0) none with roster } :
    Demultiplexer).run, rfl, rfl, keys, valid, discards, rfl, rfl, ?_⟩
  intro reader
  simp only [verify, discarded]
  rfl

theorem Verifier.scans {c : Catalog} {d : Demultiplexer} {max : UInt64} {offset : Nat} {w : Bytes}
    {reader : Token.Reader} (verifier : Verifier c d) (ahead : reader.At max offset w) :
    ({ d with reader } : Demultiplexer).Scans max w :=
  ⟨verifier.reading, ⟨offset, ahead⟩, verifier.valid, verifier.discards, by simp [verifier.current]⟩

/-- An archive passes if its blocks are a sequence for its catalog, and its summary is theirs. -/
theorem verify_eq_ok_iff {a : Archive} {max : UInt64} {offset : Nat} {w : Bytes} {s : Summary}
    (small : max.toNat < 2 ^ 63) (named : ∀ ns ∈ a.catalog.namespaces, ns.isNamed)
    (uncapped : a.cap = none) (ahead : a.reader.At max offset w) :
    verify a = .ok s ↔ ∃ blocks : List Block, w = blocks.flatMap Block.bytes ∧
      (∀ b ∈ blocks, b.Formed max) ∧ Block.Sequence a.catalog.namespaces blocks ∧
      s = .ofBlocks blocks := by
  obtain ⟨engine, verifier⟩ := exists_verifier named
  have scans := verifier.scans ahead
  have verdict : verify a = ({ engine with reader := a.reader } : Demultiplexer).scan := by
    rw [← verifier.verifies, ← uncapped]
  have reads : ∀ blocks : List Block, w = blocks.flatMap Block.bytes →
      (∀ b ∈ blocks, b.Formed max) → Block.Fulfils a.catalog.namespaces blocks →
      verify a = .ok (.ofBlocks blocks) := by
    rintro blocks rfl formed fulfils
    have reads : ({ engine with reader := a.reader } : Demultiplexer).Reads max
        (.between blocks) :=
      ⟨verifier.reading, verifier.place, ⟨offset, ahead⟩, ⟨by simp, formed⟩, verifier.valid,
        verifier.keys ▸ fulfils, by simp⟩
    rw [verdict, reads.scan small scans.discards, verifier.summary]
    rfl
  constructor
  · intro passed
    obtain ⟨blocks, split, formed, fulfils⟩ :=
      (scans.fits small (verdict ▸ passed)).between verifier.place
    have fulfils : Block.Fulfils a.catalog.namespaces blocks := verifier.keys ▸ fulfils
    have summed := reads blocks split formed fulfils
    rw [passed] at summed
    exact ⟨blocks, split, formed, Block.fulfils_iff.1 fulfils, Except.ok.inj summed⟩
  · rintro ⟨blocks, split, formed, sequence, rfl⟩
    exact reads blocks split formed (Block.fulfils_iff.2 sequence)

end Restore
end DumpArchive
