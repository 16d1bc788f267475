import DumpArchive.Proofs.Grammar
import DumpArchive.Proofs.Language
import DumpArchive.Proofs.RoundTrip

/-! Archives and their prefixes. Two readers that see the same bytes do the same until the shorter
input ends; there an archive is complete, so the longer input is refused at that very place. -/
namespace DumpArchive

/-- The error of a stream that breaks the archive grammar. -/
def FrameError.IsCorrupt (e : FrameError) : Prop := ∃ offset defect, e = .corrupt offset defect

namespace Block

open Token (Reader)

variable {max : UInt64} {offset : Nat} {r next other : Reader} {place : Place} {w x : Bytes}
  {e : FrameError}

/-- Without faults the next part can only fail as corrupt, where its token begins. -/
theorem corrupt_of_nextPart (stands : r.At max offset w)
    (h : nextPart place r = (.error e, next)) : ∃ defect, e = .corrupt offset defect := by
  unfold nextPart at h
  split at h
  case h_1 read =>
    obtain ⟨rfl, -⟩ := by simpa using h
    exact Reader.corrupt_of_readToken stands read
  all_goals first
    | (simp at h; done)
    | (simp only [Prod.mk.injEq, Except.error.injEq, stands.counted] at h
       exact ⟨_, h.1.symm⟩)

/-- More input behind does not change a part that is not the end of the input. -/
theorem nextPart_longer {part : Part} (small : max.toNat < 2 ^ 63) (stands : r.At max offset w)
    (longer : other.At max offset (w ++ x)) (found : nextPart place r = (.ok part, next))
    (more : ∀ offset, part ≠ .finish offset) :
    ∃ again rest later, nextPart place other = (.ok part, again) ∧ next.At max later rest ∧
      again.At max later (rest ++ x) ∧ later + rest.length = offset + w.length := by
  obtain ⟨rest, fronted, -⟩ := fronted_of_nextPart small stands found
  have same : r.offset = other.offset := stands.counted.trans longer.counted.symm
  cases fronted with
  | @header start record rest formed =>
    rw [List.append_assoc] at longer
    obtain ⟨mid, here, after⟩ := nextPart_header small formed stands
    obtain ⟨again, there, behind⟩ := nextPart_header small formed longer
    cases found.symm.trans here
    exact ⟨again, rest, _, same ▸ there, after, behind, by simp; omega⟩
  | @body start record rest formed =>
    rw [List.append_assoc] at longer
    obtain ⟨mid, here, after⟩ := nextPart_body small formed stands
    obtain ⟨again, there, behind⟩ := nextPart_body small formed longer
    cases found.symm.trans here
    exact ⟨again, rest, _, same ▸ there, after, behind, by simp; omega⟩
  | @close rest =>
    rw [List.append_assoc] at longer
    obtain ⟨mid, here, after⟩ := nextPart_close small stands
    obtain ⟨again, there, behind⟩ := nextPart_close small longer
    cases found.symm.trans here
    exact ⟨again, rest, _, there, after, behind, by simp [Token.delimiterBytes]; omega⟩
  | @finish start => exact absurd rfl (more start)

/-- A handler that only ever complains of corruption makes reading fail in no other way. -/
theorem corrupt_of_traverse {σ : Type} {handler : Handler σ} {state after : σ} {whole : Bool}
    (small : max.toNat < 2 ^ 63)
    (complains : ∀ call state e, (handler.tell call state).1 = .error e → e.IsCorrupt)
    (stands : r.At max offset w)
    (h : traverse whole handler place state r = (.error e, after, next)) : e.IsCorrupt := by
  fun_induction traverse whole handler place state r generalizing offset w with
  | case1 place state r e mid found =>
    obtain ⟨rfl, -⟩ := by simpa using h
    exact ⟨_, corrupt_of_nextPart stands found⟩
  | case2 place state r start record mid found e left refused =>
    obtain ⟨rfl, -⟩ := by simpa using h
    exact complains (.header start record) state e (congrArg Prod.fst refused)
  | case3 place state r start record mid found left answered ih =>
    obtain ⟨rest, -, later, ahead⟩ := fronted_of_nextPart small stands found
    exact ih ahead h
  | case4 place state r start record mid found e left refused =>
    obtain ⟨rfl, -⟩ := by simpa using h
    exact complains (.body start record) state e (congrArg Prod.fst refused)
  | case5 place state r start record mid found left answered ih =>
    obtain ⟨rest, -, later, ahead⟩ := fronted_of_nextPart small stands found
    exact ih ahead h
  | case6 place state r mid found all ih =>
    obtain ⟨rest, -, later, ahead⟩ := fronted_of_nextPart small stands found
    exact ih ahead h
  | case7 => simp at h
  | case8 place state r start mid found e left refused =>
    obtain ⟨rfl, -⟩ := by simpa using h
    exact complains (.finish start) state e (congrArg Prod.fst refused)
  | case9 => simp at h

end Block

namespace Demultiplexer

variable {d : Demultiplexer} {max : UInt64} {offset : Nat} {w x : Bytes} {s : Summary}
  {reader other : Token.Reader}

/-- What a turn makes of a part does not depend on the reader. -/
theorem dispatch_reader (part : Block.Part) (reader : Token.Reader) (d : Demultiplexer) :
    ({ d with reader } : Demultiplexer).dispatch part = { d.dispatch part with reader } := by
  cases part with
  | header start record =>
    simp only [dispatch, readHeader]
    repeat' split
    all_goals rfl
  | body start record =>
    simp only [dispatch, readBody]
    repeat' split
    all_goals rfl
  | close => rfl
  | finish start =>
    simp only [dispatch, readEnd]
    split <;> rfl

theorem scan_offering {ns : Namespace} {outlet : Nat} {record : Bytes}
    (stage : d.stage = .offering ns outlet record) : d.scan ≠ .ok s := by
  have turn : drive .none d () = drive .none (d.resolve false) () :=
    drive_offering still_none stage rfl
  have left : (d.resolve false).stage = .ending (.error (.consumerGone ns.shown)) := by
    simp [resolve, stage]
  have same : d.scan = (d.resolve false).scan := by rw [scan, scan, turn]
  rw [same, scan_ending left]
  simp [Except.map]

/-- Nobody is registered any more, so whatever comes is out of place. -/
theorem scan_stray (small : max.toNat < 2 ^ 63) (reading : d.stage = .reading)
    (place : d.place = .between) (nobody : d.roster.registry.entries = [])
    (ahead : d.reader.At max offset x) (something : x ≠ []) :
    ∃ defect, d.scan = .error (.frame (.corrupt offset defect)) := by
  rw [← scan_step (.inl reading)]
  cases found : Block.nextPart d.place d.reader with
  | mk result next =>
    cases result with
    | error e =>
      obtain ⟨defect, rfl⟩ := Block.corrupt_of_nextPart ahead found
      have fails : d.step.stage = .ending (.error (.frame (.corrupt offset defect))) := by
        simp [step, reading, found]
      exact ⟨defect, by rw [scan_ending fails]; rfl⟩
    | ok part =>
      rw [step_of_part reading found]
      obtain ⟨rest, fronted, -⟩ := Block.fronted_of_nextPart small ahead found
      rw [place] at fronted found
      cases fronted with
      | @header start record rest formed =>
        obtain ⟨mid, here, -⟩ := Block.nextPart_header small formed ahead
        cases found.symm.trans here
        rw [ahead.counted, dispatch]
        rcases readHeader_cases offset record { d with reader := next, place := .inside } with
          ⟨defect, rejects⟩ | ⟨header, route, -, known, -⟩
        · exact ⟨defect, by rw [rejects, scan_ending rfl]; rfl⟩
        · simp [Registry.find?, nobody] at known
      | @finish start => exact absurd rfl something

/-- After a part that is not the end of the input, an engine that passes goes on reading. -/
theorem reading_dispatch {part : Block.Part} (reading : d.stage = .reading)
    (more : ∀ start, part ≠ .finish start) (passed : (d.dispatch part).scan = .ok s) :
    (d.dispatch part).stage = .reading := by
  cases part with
  | header start record =>
    rw [dispatch] at passed ⊢
    rcases readHeader_cases start record { d with place := .inside } with
      ⟨defect, rejects⟩ | ⟨header, route, -, -, goes⟩
    · exact absurd (rejects ▸ passed) (scan_reject _ _ _ s)
    · rw [goes, heed]
      split
      · exact reading
      · exact reading
  | body start record =>
    rw [dispatch] at passed ⊢
    rcases readBody_cases start record d with ⟨defect, rejects⟩ | ⟨ns, route, -, goes⟩
    · exact absurd (rejects ▸ passed) (scan_reject _ _ _ s)
    · rw [goes] at passed ⊢
      cases route with
      | discard => exact reading
      | outlet number => exact absurd passed (scan_offering rfl)
  | close => exact reading
  | finish start => exact absurd rfl (more start)

/-- What passes on its own is refused with more behind it, where the more begins. -/
theorem scan_longer (small : max.toNat < 2 ^ 63) (reading : d.stage = .reading)
    (ahead : d.reader.At max offset w) (longer : other.At max offset (w ++ x))
    (something : x ≠ []) (passed : d.scan = .ok s) :
    ∃ defect, ({ d with reader := other } : Demultiplexer).scan =
      .error (.frame (.corrupt (offset + w.length) defect)) := by
  -- both engines take the same part as long as there is one; then the first is done
  induction work : d.work using Nat.strong_induction_on generalizing d offset w other with
  | _ n ih =>
    subst work
    have less := work_step_lt d (.inl reading)
    rw [← scan_step (.inl reading)] at passed
    cases found : Block.nextPart d.place d.reader with
    | mk result next =>
      cases result with
      | error e =>
        have fails : d.step.stage = .ending (.error (.frame e)) := by
          simp [step, reading, found]
        simp [scan_ending fails, Except.map] at passed
      | ok part =>
        have turn := step_of_part reading found
        by_cases last : ∃ start, part = .finish start
        · obtain ⟨start, rfl⟩ := last
          obtain ⟨rest, fronted, -⟩ := Block.fronted_of_nextPart small ahead found
          obtain ⟨place, rfl⟩ : d.place = .between ∧ w = [] := by
            generalize d.place = place at fronted
            cases fronted
            exact ⟨rfl, rfl⟩
          rcases readEnd_cases start { d with reader := next } with ⟨defect, rejects⟩ | nobody
          · rw [turn, dispatch, rejects] at passed
            exact absurd passed (scan_reject _ _ _ s)
          · exact scan_stray (d := { d with reader := other }) small reading place nobody
              (by simpa using longer) something
        · have more : ∀ start, part ≠ .finish start := by simpa using last
          obtain ⟨again, rest, later, there, after, behind, count⟩ :=
            Block.nextPart_longer small ahead longer found more
          have moved : ({ d with reader := other } : Demultiplexer).step =
              { d.step with reader := again } := by
            rw [turn, dispatch_reader part next d]
            exact (step_of_part (d := { d with reader := other }) reading there).trans
              (dispatch_reader part again d)
          have reader : d.step.reader = next := by rw [turn, reader_dispatch]
          rw [← scan_step (d := { d with reader := other }) (.inl reading), moved, ← count]
          rw [turn] at passed
          refine ih _ less ?_ (reader ▸ after) behind (turn ▸ passed) rfl
          rw [turn]
          exact reading_dispatch (d := { d with reader := next }) reading more passed

/-- A turn reads on, comes to the end of the input, or finds the stream corrupt. -/
theorem Scans.turn (small : max.toNat < 2 ^ 63) (scans : d.Scans max w) :
    (∃ rest, d.step.Scans max rest) ∨ d.step.stage = .ending (.ok ()) ∨
      ∃ offset defect, d.step.stage = .ending (.error (.frame (.corrupt offset defect))) := by
  obtain ⟨offset, ahead⟩ := scans.ahead
  cases found : Block.nextPart d.place d.reader with
  | mk result next =>
    cases result with
    | error e =>
      obtain ⟨defect, rfl⟩ := Block.corrupt_of_nextPart ahead found
      exact .inr (.inr ⟨offset, defect, by simp [step, scans.reading, found]⟩)
    | ok part =>
      obtain ⟨rest, fronted, after⟩ := Block.fronted_of_nextPart small ahead found
      rw [step_of_part scans.reading found]
      cases part with
      | header start record =>
        obtain rfl : w = record ++ rest := by
          generalize d.place = place at fronted
          cases fronted
          rfl
        rw [dispatch]
        rcases readHeader_cases start record { d with reader := next, place := .inside } with
          ⟨defect, rejects⟩ | ⟨header, route, -, known, goes⟩
        · exact .inr (.inr ⟨start, defect, by rw [rejects]; rfl⟩)
        · rw [goes]
          exact .inl ⟨rest, scans.heed after (scans.valid.find?_eq_some_iff.1 known)⟩
      | body start record =>
        rw [dispatch]
        rcases readBody_cases start record { d with reader := next } with
          ⟨defect, rejects⟩ | ⟨ns, route, current, goes⟩
        · exact .inr (.inr ⟨start, defect, by rw [rejects]; rfl⟩)
        · obtain rfl : route = .discard := scans.discards _ (scans.current _ current)
          rw [goes]
          exact .inl ⟨rest, scans.reading, after, scans.valid, scans.discards, scans.current⟩
      | close =>
        exact .inl ⟨rest, scans.reading, after, scans.valid, scans.discards, scans.current⟩
      | finish start =>
        rw [dispatch]
        rcases readEnd_cases start { d with reader := next } with ⟨defect, rejects⟩ | nobody
        · exact .inr (.inr ⟨start, defect, by rw [rejects]; rfl⟩)
        · have nobody : d.roster.registry.entries = [] := nobody
          exact .inr (.inl (by simp only [readEnd, nobody]))

/-- Without consumers and faults, a run can only fail over a corrupt stream. -/
theorem Scans.corrupt {e : EngineError} (small : max.toNat < 2 ^ 63) (scans : d.Scans max w)
    (failed : d.scan = .error e) : ∃ offset defect, e = .frame (.corrupt offset defect) := by
  induction work : d.work using Nat.strong_induction_on generalizing d w with
  | _ n ih =>
    subst work
    have less := work_step_lt d (.inl scans.reading)
    rw [← scan_step (.inl scans.reading)] at failed
    rcases scans.turn small with ⟨rest, on⟩ | ends | ⟨offset, defect, ends⟩
    · exact ih _ less on failed rfl
    · simp [scan_ending ends, Except.map] at failed
    · rw [scan_ending ends] at failed
      exact ⟨offset, defect, (Except.error.inj failed).symm⟩

end Demultiplexer

namespace Catalog

open Token (Reader)

variable {c : Catalog} {max : UInt64} {offset : Nat} {r next other : Reader} {w x rest : Bytes}
  {e : FrameError}

theorem Draft.corrupt_of_tell (call : Block.Call) (draft : Draft) (e : FrameError)
    (refused : (Draft.handler.tell call draft).1 = .error e) : e.IsCorrupt := by
  cases call with
  | header start record =>
    simp only [Block.Handler.tell, Draft.handler] at refused
    split at refused
    · simp at refused
    · exact ⟨start, _, (Except.error.inj refused).symm⟩
  | body start record =>
    simp only [Block.Handler.tell, Draft.handler] at refused
    split at refused
    · exact ⟨start, _, (Except.error.inj refused).symm⟩
    · split at refused
      · simp at refused
      · exact ⟨start, _, (Except.error.inj refused).symm⟩
  | finish start => simp [Block.Handler.tell, Draft.handler] at refused

/-- Behind the magic number reading a catalog can only fail over a corrupt stream. -/
theorem corrupt_of_read (small : max.toNat < 2 ^ 63)
    (ahead : r.At max offset (Token.magicBytes ++ rest)) (failed : read r = (.error e, next)) :
    e.IsCorrupt := by
  obtain ⟨first, raw, body⟩ := Reader.readRaw_at ahead 4
  have magic : (Token.magicBytes ++ rest).take 4 = Token.magicBytes := rfl
  have width : ¬ Token.magicBytes.length < 4 := by decide
  rw [magic] at raw
  simp only [read, raw, width, if_false, ne_eq, not_true_eq_false] at failed
  split at failed
  · next e draft last reads =>
    obtain ⟨rfl, -⟩ := by simpa using failed
    exact Block.corrupt_of_traverse small Draft.corrupt_of_tell body reads
  · split at failed
    · obtain ⟨rfl, -⟩ := by simpa using failed
      exact ⟨_, _, rfl⟩
    · simp at failed
  · obtain ⟨rfl, -⟩ := by simpa using failed
    exact ⟨_, _, rfl⟩

/-- A catalog that is read is read all the same with more input behind it. -/
theorem read_longer (small : max.toNat < 2 ^ 63) (ahead : r.At max 0 w)
    (longer : other.At max 0 (w ++ x)) (found : read r = (.ok c, next)) :
    ∃ again offset rest, read other = (.ok c, again) ∧ next.At max offset rest ∧
      again.At max offset (rest ++ x) ∧ offset + rest.length = w.length := by
  obtain ⟨f, rest, formed, rfl, same, stands⟩ := front_of_read small ahead found
  rw [List.append_assoc] at longer
  obtain ⟨d, again, reads, alike, behind⟩ := read_front small formed longer
  obtain rfl := alike.unique same
  exact ⟨again, _, rest, reads, (balanced_of_read found).stands ahead stands,
    (balanced_of_read reads).stands longer behind, by simp⟩

end Catalog

namespace Restore

/-- An archive is opened and verified. -/
def examine (source : Source) (max : UInt64) : Except EngineError Summary :=
  match openArchive source max none with
  | (.error e, _) => .error (.frame e)
  | (.ok a, _) => verify a

variable {source other : Source} {max : UInt64} {s : Summary} {x : Bytes}

theorem examine_eq_ok_iff : examine source max = .ok s ↔ Verifies source max s := by
  unfold examine Verifies
  cases opened : openArchive source max none with
  | mk result reader =>
    cases result with
    | error e => simp
    | ok a =>
      constructor
      · intro passed
        exact ⟨a, reader, rfl, passed⟩
      · rintro ⟨b, last, same, passed⟩
        obtain ⟨rfl, rfl⟩ := by simpa using same
        exact passed

/-- An archive with more behind it is opened and then found corrupt where the more begins. -/
theorem examine_longer (small : max.toNat < 2 ^ 63) (sound : source.schedule.Sound)
    (steady : other.schedule.Sound) (passed : Verifies source max s)
    (longer : other.pending = source.pending ++ x) (something : x ≠ []) :
    ∃ a reader, openArchive other max none = (.ok a, reader) ∧
      ∃ defect, verify a = .error (.frame (.corrupt source.pending.length defect)) := by
  obtain ⟨a, reader, opened, passed⟩ := passed
  obtain ⟨found, rfl, uncapped⟩ := openArchive_eq_ok_iff.1 opened
  have start := Token.Reader.at_start sound max
  have ahead := Token.Reader.at_start steady max
  rw [longer] at ahead
  obtain ⟨again, offset, rest, reads, stands, behind, count⟩ :=
    Catalog.read_longer small start ahead found
  refine ⟨⟨again, a.catalog, none⟩, again, openArchive_eq_ok_iff.2 ⟨reads, rfl, rfl⟩, ?_⟩
  obtain ⟨f, -, formed, -, same, -⟩ := Catalog.front_of_read small start found
  obtain ⟨engine, verifier⟩ := exists_verifier (same.named formed)
  rw [verifier.verifies, ← count]
  have verdict : verify a = ({ engine with reader := a.reader } : Demultiplexer).scan := by
    rw [← verifier.verifies, ← uncapped]
  exact Demultiplexer.scan_longer (d := { engine with reader := a.reader }) small verifier.reading
    stands behind something (verdict ▸ passed)

theorem examine_short (steady : other.schedule.Sound) (few : other.pending.length < 4) :
    examine other max = .error (.frame (.notAnArchive 0)) := by
  have start := Token.Reader.at_start steady max
  obtain ⟨first, raw, -⟩ := Token.Reader.readRaw_at start 4
  rw [List.take_of_length_le (Nat.le_of_lt few)] at raw
  simp only [examine, openArchive, Catalog.read, raw, few, if_true]

/-- Behind the magic number an input can only be refused as corrupt. -/
theorem examine_corrupt {rest : Bytes} {e : EngineError} (small : max.toNat < 2 ^ 63)
    (steady : other.schedule.Sound) (magic : other.pending = Token.magicBytes ++ rest)
    (failed : examine other max = .error e) :
    ∃ offset defect, e = .frame (.corrupt offset defect) := by
  have start := Token.Reader.at_start steady max
  rw [magic] at start
  unfold examine at failed
  cases opened : openArchive other max none with
  | mk result reader =>
    rw [opened] at failed
    cases result with
    | error f =>
      have failure : Catalog.read (.start other max) = (.error f, reader) := by
        unfold openArchive at opened
        split at opened
        · simp_all
        · simp at opened
      obtain ⟨offset, defect, rfl⟩ := Catalog.corrupt_of_read small start failure
      exact ⟨offset, defect, (Except.error.inj failed).symm⟩
    | ok a =>
      obtain ⟨found, rfl, uncapped⟩ := openArchive_eq_ok_iff.1 opened
      obtain ⟨f, rest, formed, -, same, offset, stands⟩ := Catalog.front_of_read small start found
      obtain ⟨engine, verifier⟩ := exists_verifier (same.named formed)
      have verdict : verify a = ({ engine with reader := a.reader } : Demultiplexer).scan := by
        rw [← verifier.verifies, ← uncapped]
      exact (verifier.scans stands).corrupt small (verdict ▸ failed)

/-- Every archive begins with the magic number. -/
theorem Verifies.magic (small : max.toNat < 2 ^ 63) (sound : source.schedule.Sound)
    (passed : Verifies source max s) : ∃ rest, source.pending = Token.magicBytes ++ rest := by
  obtain ⟨l, -, pending, -⟩ := (verifies_iff sound small).1 passed
  exact ⟨_, by rw [pending, Layout.bytes, Catalog.Front.bytes, List.append_assoc]⟩

/-- Whatever comes behind an archive is refused, right where it begins, and an archive that is cut
anywhere is refused as well: as no archive if the magic number is cut, as corrupt behind that. So
no archive is a proper prefix of another. -/
theorem examine_whole (small : max.toNat < 2 ^ 63) (sound : source.schedule.Sound)
    (passed : examine source max = .ok s) (steady : other.schedule.Sound) :
    (∀ x ≠ [], other.pending = source.pending ++ x →
      ∃ a reader, openArchive other max none = (.ok a, reader) ∧
        ∃ defect, verify a = .error (.frame (.corrupt source.pending.length defect))) ∧
    (∀ x ≠ [], source.pending = other.pending ++ x →
      (other.pending.length < 4 → examine other max = .error (.frame (.notAnArchive 0))) ∧
      (4 ≤ other.pending.length →
        ∃ offset defect, examine other max = .error (.frame (.corrupt offset defect)))) ∧
    ((∃ s, examine other max = .ok s) → source.pending <+: other.pending →
      source.pending = other.pending) := by
  have verified := examine_eq_ok_iff.1 passed
  refine ⟨?_, ?_, ?_⟩
  · intro x something longer
    exact examine_longer small sound steady verified longer something
  · intro x something cut
    refine ⟨examine_short steady, fun many => ?_⟩
    obtain ⟨rest, magic⟩ := verified.magic small sound
    have front : other.pending = Token.magicBytes ++ other.pending.drop 4 := by
      have four : source.pending.take 4 = Token.magicBytes := by rw [magic]; rfl
      rw [cut, List.take_append_of_le_length many] at four
      rw [← four, List.take_append_drop]
    cases verdict : examine other max with
    | error e =>
      obtain ⟨offset, defect, rfl⟩ := examine_corrupt small steady front verdict
      exact ⟨offset, defect, rfl⟩
    | ok t =>
      -- the cut input would be an archive with the rest of `source` behind it
      obtain ⟨a, reader, opened, defect, fails⟩ :=
        examine_longer small steady sound (examine_eq_ok_iff.1 verdict) cut something
      simp [examine, opened, fails] at passed
  · rintro ⟨t, also⟩ ⟨x, longer⟩
    by_contra distinct
    have something : x ≠ [] := by
      rintro rfl
      exact distinct (by simpa using longer)
    obtain ⟨a, reader, opened, defect, fails⟩ :=
      examine_longer small sound steady verified longer.symm something
    simp [examine, opened, fails] at also

/-- An archive of two namespaces, with a byte too many, without its last one, cut where a block has
ended, and cut in the magic number. -/
theorem examine_whole_braided :
    let w := braided.bytes
    (∃ a reader, openArchive (.ofBytes (w ++ [0])) 128 none = (.ok a, reader) ∧
      ∃ defect, verify a = .error (.frame (.corrupt w.length defect))) ∧
    (∃ offset defect, examine (.ofBytes w.dropLast) 128 = .error (.frame (.corrupt offset defect))) ∧
    (∃ offset defect, examine (.ofBytes (w.take 200)) 128 =
      .error (.frame (.corrupt offset defect))) ∧
    examine (.ofBytes (w.take 3)) 128 = .error (.frame (.notAnArchive 0)) := by
  intro w
  have small : (128 : UInt64).toNat < 2 ^ 63 := by decide
  have steady (data : Bytes) : (Source.ofBytes data).schedule.Sound := Stream.Schedule.sound_steady
  have passed := examine_eq_ok_iff.2
    ((verifies_iff (steady w) small).2 ⟨braided, formed_braided, rfl, rfl⟩)
  have cut (n : Nat) (short : n < w.length) :
      (n < 4 → examine (.ofBytes (w.take n)) 128 = .error (.frame (.notAnArchive 0))) ∧
      (4 ≤ n → ∃ offset defect, examine (.ofBytes (w.take n)) 128 =
        .error (.frame (.corrupt offset defect))) := by
    have count : (Source.ofBytes (w.take n)).pending.length = n := by
      simpa [Source.ofBytes, Source.scheduled] using short.le
    obtain ⟨-, cuts, -⟩ := examine_whole small (steady w) passed (steady (w.take n))
    rw [count] at cuts
    exact cuts (w.drop n) (by simpa using short) (List.take_append_drop n w).symm
  have long : w.length = 378 := by decide +kernel
  refine ⟨(examine_whole small (steady w) passed (steady (w ++ [0]))).1 [0] (by simp) rfl, ?_,
    (cut 200 (by omega)).2 (by omega), (cut 3 (by omega)).1 (by omega)⟩
  rw [List.dropLast_eq_take]
  exact (cut _ (by omega)).2 (by omega)

end Restore
end DumpArchive
