import DumpArchive.Proofs.Archiving
import DumpArchive.Proofs.Decoding
import DumpArchive.Proofs.Failures

/-! What is left of a dump that fails. A worker that fails lets go of its handle as one that is done
does, so its namespace ends on the stream like any other. The bytes are no archive as long as a
namespace was not opened, which is all that tells a reader of the failure. -/
namespace DumpArchive

open Multiplexer (Exchange Traffic Handle Heads)
open Token (Writer)

/-- Where every block is of an ended namespace, the namespaces that are asked for have ended. -/
theorem Block.Sequence.iff_subset {namespaces ended : List Namespace} {blocks : List Block}
    (sequence : Block.Sequence ended blocks) (known : ∀ ns ∈ ended, ns ∈ namespaces) :
    Block.Sequence namespaces blocks ↔ ∀ ns ∈ namespaces, ns ∈ ended := by
  constructor
  · intro whole ns member
    obtain ⟨b, block, -, rfl⟩ := whole.ended ns member
    exact sequence.known b block
  · intro all
    exact sequence.congr fun ns => ⟨known ns, all ns⟩

/-- A catalog that is refused breaks off before its delimiter. -/
theorem Catalog.broken_of_write {c : Catalog} {writer last : Writer} {e : FrameError}
    (sound : writer.sink.Sound) (failed : c.write writer = (.error e, last)) :
    ∃ records : List Bytes, (∀ b ∈ records, Record.Formed writer.max b) ∧
      writer.Wrote (Token.magicBytes ++ records.flatten) last := by
  obtain ⟨mid, opened⟩ := Writer.put_sound sound Token.magicBytes
  have magic := Writer.wrote_of_put opened
  simp only [write, Writer.writeMagic, opened] at failed
  obtain ⟨front, t, back, split, formed, unformed, wrote⟩ :=
    Writer.of_writeTokens_error (magic.sound sound) failed
  have tokens : (c.header.record :: c.entries.map (·.record)).map Token.record ++ [.delimiter] =
      front ++ t :: back := by
    rw [← split]
    simp [Catalog.tokens, Function.comp_def]
  rcases List.append_eq_append_iff.1 tokens with ⟨rest, -, ends⟩ | ⟨rest, early, -⟩
  · -- a delimiter is never refused
    cases rest with
    | nil =>
      obtain ⟨rfl, -⟩ : Token.delimiter = t ∧ back = [] := by simpa using ends
      exact absurd trivial unformed
    | cons u rest => simp at ends
  · obtain ⟨records, others, -, rfl, -⟩ := List.map_eq_append_iff.1 early
    refine ⟨records, ?_, ?_⟩
    · rw [magic.limit] at formed
      simpa [Token.Formed] using formed
    · have bytes : (records.map Token.record).flatMap Token.bytes = records.flatten := by
        simp [List.flatMap_map, Token.bytes, List.flatMap_id']
      exact magic.trans (bytes ▸ wrote)

namespace Dump

variable {max : UInt64} {cap : Option UInt64} {base : Bytes} {t : Traffic} {p : Pool}
  {intents : List Intent} {namespaces first : List Namespace} {concurrency : UInt64}
  {settings : Settings} {sink : Sink}

/-- A namespace whose entry may be written can have its headers written. -/
theorem heads_of_entry {e : CatalogEntry} (formed : Record.Formed max e.record) :
    Heads max e.ns := by
  intro eof
  have shorter : (CollectionHeader.record ⟨e.ns, eof⟩).length ≤ e.record.length := by
    have mark : (Bytes.ofText "EOF").length = 3 := by decide
    have metadata : (Bytes.ofText "metadata").length = 8 := by decide
    simp only [CollectionHeader.record, CollectionHeader.fields, CatalogEntry.record,
      CatalogEntry.fields, Document.Fields.encode, Document.length_enclose,
      Document.Fields.bytes, Document.zeroEnded, Document.Value.payload,
      Document.Value.string, Document.length_textBytes, List.length_append, List.length_cons]
    cases eof <;>
      simp [Document.Fields.bytes, Document.zeroEnded, Document.Value.payload, mark, metadata]
    omega
  exact Document.Fields.formed_encode (Nat.le_trans shorter formed.most)
    (Nat.lt_of_le_of_lt shorter formed.length_lt)

/-- A pool at its start has its handles in hand. -/
theorem crewed_crew (ran : t.exchange.phase ≠ .ready)
    (handles : t.handles = (crew (intents.take concurrency.toNat) 0 0).map
      fun w => .fresh w.producer w.ns) :
    Crewed ⟨t.exchange, intents.drop concurrency.toNat, false,
      crew (intents.take concurrency.toNat) 0 0⟩ t (intents.map (·.ns)) := by
  refine ⟨rfl, ran, ?_, hands_crew _ handles, ?_, ?_⟩
  · intro w member
    obtain ⟨k, found⟩ := List.mem_iff_getElem?.1 member
    obtain ⟨i, -, rfl⟩ := place_crew found
    exact ⟨[], .fresh k i.ns, by simp [handles, found], rfl, rfl, rfl, rfl⟩
  · intro h there
    rw [handles] at there
    obtain ⟨w, member, rfl⟩ := List.mem_map.1 there
    obtain ⟨k, found⟩ := List.mem_iff_getElem?.1 member
    obtain ⟨i, here, rfl⟩ := place_crew found
    exact List.mem_map.2 ⟨i, List.mem_of_mem_take here, rfl⟩
  · simp only [Pool.unopened, unopened_crew, List.append_nil]
    exact fun i waits => List.mem_map_of_mem (List.mem_of_mem_drop waits)

theorem lost_crew {x : Exchange} (some : 1 ≤ concurrency) (barren : ∃ i ∈ intents, i.Barren max) :
    Pool.Lost max ⟨x, intents.drop concurrency.toNat, false,
      crew (intents.take concurrency.toNat) 0 0⟩ := by
  obtain ⟨i, member, barren⟩ := barren
  refine ⟨?_, .inr ⟨rfl, ?_, ?_⟩⟩
  · cases intents with
    | nil => contradiction
    | cons j rest =>
      obtain ⟨k, more⟩ : ∃ k, concurrency.toNat = k + 1 :=
        Nat.exists_eq_add_one.2 (UInt64.le_iff_toNat_le.1 some)
      simp [more, crew]
  · intro _ w member
    obtain ⟨j, -, stage⟩ := of_mem_crew member
    simp [Worker.Leaves, stage]
  · rw [← List.take_append_drop concurrency.toNat intents] at member
    rcases List.mem_append.1 member with early | late
    · obtain ⟨k, found⟩ := List.mem_iff_getElem?.1 early
      have there : (crew (intents.take concurrency.toNat) 0 0)[k]? =
          Option.some ⟨k, i.ns, k, .opening i⟩ := by simp [getElem?_crew, found]
      exact .inr ⟨_, List.mem_of_getElem? there, barren⟩
    · exact .inl ⟨i, late, barren⟩

/-- The blocks that are left when all is done: those of the namespaces that have ended, among them
all that had a worker from the start. -/
theorem Works.remains (works : Works max cap base namespaces first p) (done : p.isDone) :
    ∃ blocks : List Block,
      p.exchange.engine.writer.sink.accepted = base ++ blocks.flatMap Block.bytes ∧
      (∀ b ∈ blocks, b.Formed max) ∧
      Block.Sequence p.exchange.engine.registry.closed blocks ∧
      (∀ ns ∈ p.exchange.engine.registry.closed, ns ∈ namespaces) ∧
      ∀ ns ∈ first, ns ∈ p.exchange.engine.registry.closed := by
  obtain ⟨t, crewed, steady, early⟩ := works
  obtain ⟨wire, accounted, view⟩ := steady.books
  rcases crewed.stopped_or_running steady with running | ⟨s, -, one, -⟩
  · simp [Pool.isDone, crewed.exchange, running] at done
  have concluded := accounted.concluded view (by simp [one] : t.outcomes.head? = some (.ok s))
  have closed : ∀ ns, ns ∈ t.handles.map (·.ns) ↔ ns ∈ t.exchange.engine.registry.closed := by
    intro ns
    rw [accounted.tracks.closed, List.mem_reverse, Wire.mem_ended]
    constructor
    · exact concluded.sequence.ended ns
    · rintro ⟨b, member, -, rfl⟩
      exact concluded.sequence.known b member
  rw [crewed.exchange]
  refine ⟨wire.blocks, concluded.accepted, accounted.limit ▸ concluded.formed,
    concluded.sequence.congr closed, ?_, fun ns held => (closed ns).1 (early ns held)⟩
  intro ns ended
  obtain ⟨h, member, rfl⟩ := List.mem_map.1 ((closed ns).2 ended)
  exact crewed.opened h member

theorem entries_of_catalog {c : Catalog} (made : catalog concurrency intents = .ok c) :
    c.entries = entries intents := by
  unfold catalog at made
  exact (Catalog.of_ofEntries made).2

/-- A catalog that was let through can be read if the namespaces of its intents have names. -/
theorem formed_of_listed {c : Catalog} (same : ∀ e ∈ c.entries, e ∈ entries intents)
    (named : ∀ i ∈ intents, i.ns.isNamed) (header : Record.Formed max c.header.record)
    (listed : ∀ e ∈ c.entries, Record.Formed max e.record) : c.front.Formed max := by
  refine Catalog.formed_front header fun e member => ⟨listed e member, ?_⟩
  obtain ⟨i, held, rfl⟩ := List.mem_map.1 (same e member)
  exact named i held

/-- A pool begins in good order behind the catalog, whatever its sources are. -/
theorem of_begins (named : ∀ i ∈ intents, i.ns.isNamed) (sound : sink.Sound)
    (begins : Begins settings concurrency intents sink p) :
    ∃ f : Catalog.Front, f.Formed settings.max ∧ f.namespaces = intents.map (·.ns) ∧
      (∀ ns ∈ intents.map (·.ns), Heads settings.max ns) ∧
      Works settings.max settings.cap (sink.accepted ++ f.bytes) (intents.map (·.ns))
        ((intents.take concurrency.toNat).map (·.ns)) p ∧
      p.work < rounds intents ∧ ∃ x, p = ⟨x, intents.drop concurrency.toNat, false,
        crew (intents.take concurrency.toNat) 0 0⟩ := by
  obtain ⟨c, writer, made, written, begun⟩ := begins
  obtain ⟨header, listed, wrote, -⟩ := Catalog.of_write written
  have entries := entries_of_catalog made
  have limit : writer.max = settings.max := wrote.limit
  have heads : ∀ i ∈ intents, Heads writer.max i.ns := by
    intro i member
    have entry : (⟨i.ns, i.metadata⟩ : CatalogEntry) ∈ c.entries := by
      rw [entries]
      exact List.mem_map.2 ⟨i, member, rfl⟩
    rw [limit]
    exact heads_of_entry (e := ⟨i.ns, i.metadata⟩) (listed _ entry)
  have formed : c.front.Formed settings.max :=
    formed_of_listed (fun e member => entries ▸ member) named header listed
  obtain ⟨t, steady, ran, handles, rfl, work⟩ := of_begin (wrote.sound sound) heads begun
  rw [wrote.accepted, limit] at steady
  refine ⟨c.front, formed, ?_, ?_, ⟨t, crewed_crew ran handles, steady, ?_⟩, work, _, rfl⟩
  · rw [← c.of_front.namespaces, Catalog.namespaces, entries]
    simp [Dump.entries, Function.comp_def]
  · intro ns member
    obtain ⟨i, held, rfl⟩ := List.mem_map.1 member
    exact limit ▸ heads i held
  · rw [handles, List.map_map, ← names_crew _ 0 0]
    exact fun ns early => early

theorem barren_of_spoiled {i : Intent} (spoiled : i.origin.Spoiled max) : i.Barren max :=
  fun _ opens => spoiled.not_drains opens

/-- What a dump comes to that fails: an error, and bytes that are opened and verified as an archive
just if all its namespaces have ended, as those have that had a worker from the start. -/
structure Fails (max : UInt64) (concurrency : UInt64) (intents : List Intent) (base : Bytes)
    (p : Pool) : Prop where
  error : ∃ e, p.result = .error e
  early : ∀ i ∈ intents.take concurrency.toNat, i.ns ∈ p.exchange.engine.registry.closed
  verified : ∃ data, p.exchange.engine.writer.sink.accepted = base ++ data ∧
    ∀ source : Source, source.schedule.Sound → source.pending = data →
      ((∃ s, Restore.examine source max = .ok s) ↔
        max.toNat < 2 ^ 63 ∧ ∀ i ∈ intents, i.ns ∈ p.exchange.engine.registry.closed)

/-- Whatever the schedule, a dump with a source that cannot be dumped ends, and fails. -/
theorem fails_of_begins (some : 1 ≤ concurrency) (named : ∀ i ∈ intents, i.ns.isNamed)
    (barren : ∃ i ∈ intents, i.Barren settings.max) (sound : sink.Sound)
    (begins : Begins settings concurrency intents sink p) :
    (∀ schedule, (p.execute schedule).isDone →
      Fails settings.max concurrency intents sink.accepted (p.execute schedule)) ∧
    ∀ schedule, Rounds p.actors (rounds intents) schedule → (p.execute schedule).isDone := by
  obtain ⟨f, formed, names, heads, works, work, x, rfl⟩ := of_begins named sound begins
  constructor
  · intro schedule done
    obtain ⟨blocks, accepted, whole, sequence, known, early⟩ :=
      (works.execute heads schedule).remains done
    refine ⟨(works.lost_execute heads (lost_crew some barren) schedule).error done, ?_, ?_⟩
    · exact fun i member => early i.ns (List.mem_map_of_mem member)
    · refine ⟨f.bytes ++ blocks.flatMap Block.bytes, accepted.trans (List.append_assoc ..), ?_⟩
      intro source steady pending
      rw [Restore.examine_layout_iff (l := ⟨f, blocks⟩) steady formed whole pending, names,
        sequence.iff_subset known]
      simp
  · rintro schedule ⟨rounds, split, many, full⟩
    exact works.isDone_of_rounds heads ⟨rounds, split, Nat.le_trans work many, full⟩

/-- Nothing is written behind a catalog that is refused, and no namespace has ended there. -/
theorem write_refused (some : ∃ i, i ∈ intents) (named : ∀ i ∈ intents, i.ns.isNamed)
    (distinct : (intents.map (·.ns)).Nodup) (sound : sink.Sound)
    (idle : ¬ ∃ p, Begins settings concurrency (ordered intents) sink p) :
    ∃ e writer data, write settings concurrency intents sink = (.error e, writer) ∧
      writer.sink.accepted = sink.accepted ++ data ∧
      ∀ source : Source, source.schedule.Sound → source.pending = data →
        ¬ ∃ s, Restore.examine source settings.max = .ok s := by
  have same := perm_ordered intents
  have apart : ((entries (ordered intents)).map (·.ns)).Nodup := by
    simpa [entries, Function.comp_def] using (same.map _).nodup_iff.2 distinct
  let c : Catalog := ⟨.current (concurrentField concurrency), entries (ordered intents), apart⟩
  have made : catalog concurrency (ordered intents) = .ok c := Catalog.ofEntries_eq apart
  have clean : (Writer.start sink settings.max).sink.Sound := sound
  cases written : c.write (.start sink settings.max) with
  | mk result writer =>
    cases result with
    | error e =>
      obtain ⟨records, formed, wrote⟩ := Catalog.broken_of_write clean written
      refine ⟨.frame e, writer, Token.magicBytes ++ records.flatten, ?_, wrote.accepted, ?_⟩
      · simp only [write, made, written]
      · exact fun source steady pending => Restore.not_examine_of_records steady formed pending
    | ok =>
      obtain ⟨header, listed, wrote, -⟩ := Catalog.of_write written
      cases begun : begin concurrency (ordered intents) (.start (.start writer settings.cap)) with
      | ok p => exact absurd ⟨p, c, writer, made, written, begun⟩ idle
      | error e =>
        refine ⟨e, writer, c.front.bytes, ?_, wrote.accepted, fun source steady pending => ?_⟩
        · simp only [write, made, written, begun]
        have formed : c.front.Formed settings.max :=
          formed_of_listed (fun _ member => member)
            (fun i held => named i (same.mem_iff.1 held)) header listed
        rw [Restore.examine_layout_iff (l := ⟨c.front, []⟩) steady formed (by simp)
          (by simp [pending, Layout.bytes])]
        rintro ⟨-, sequence⟩
        obtain ⟨i, member⟩ := some
        have asked : i.ns ∈ c.front.namespaces := by
          rw [← c.of_front.namespaces]
          exact List.mem_map.2 ⟨_, List.mem_map.2 ⟨i, same.mem_iff.2 member, rfl⟩, rfl⟩
        obtain ⟨b, nothing, -⟩ := sequence.ended i.ns asked
        exact List.not_mem_nil nothing

/-- A dump of a source that cannot be dumped: it cannot be asked for, its stream fails, or something
else than records is on it. Over a sink without faults the dump always ends, with an error. What it
has written is an archive for a reader just if every namespace has ended by then, as all have that
got a worker at once; with fewer workers than intents it depends on the schedule. -/
theorem write_fails (settings : Settings) (concurrency : UInt64) (intents : List Intent)
    (sink : Sink) (some : 1 ≤ concurrency) (named : ∀ i ∈ intents, i.ns.isNamed)
    (distinct : (intents.map (·.ns)).Nodup)
    (spoiled : ∃ i ∈ intents, i.origin.Spoiled settings.max) (sound : sink.Sound) :
    (∃ e writer, write settings concurrency intents sink = (.error e, writer)) ∧
    (∀ p, Begins settings concurrency (ordered intents) sink p →
      (∀ schedule, (p.execute schedule).isDone →
        Fails settings.max concurrency (ordered intents) sink.accepted (p.execute schedule)) ∧
      (∃ n, ∀ schedule, Rounds p.actors n schedule → (p.execute schedule).isDone) ∧
      ∃ schedule, (p.execute schedule).isDone ∧ write settings concurrency intents sink =
        ((p.execute schedule).result, (p.execute schedule).exchange.engine.writer)) ∧
    ((¬ ∃ p, Begins settings concurrency (ordered intents) sink p) →
      ∃ data, (write settings concurrency intents sink).2.sink.accepted = sink.accepted ++ data ∧
        ∀ source : Source, source.schedule.Sound → source.pending = data →
          ¬ ∃ s, Restore.examine source settings.max = .ok s) := by
  have same := perm_ordered intents
  obtain ⟨i, member, spoiled⟩ := spoiled
  have barren : ∃ i ∈ ordered intents, i.Barren settings.max :=
    ⟨i, same.mem_iff.2 member, barren_of_spoiled spoiled⟩
  have valid : ∀ i ∈ ordered intents, i.ns.isNamed := fun i held => named i (same.mem_iff.1 held)
  have runs : ∀ p, Begins settings concurrency (ordered intents) sink p →
      (∀ schedule, (p.execute schedule).isDone →
        Fails settings.max concurrency (ordered intents) sink.accepted (p.execute schedule)) ∧
      (∃ n, ∀ schedule, Rounds p.actors n schedule → (p.execute schedule).isDone) ∧
      ∃ schedule, (p.execute schedule).isDone ∧ write settings concurrency intents sink =
        ((p.execute schedule).result, (p.execute schedule).exchange.engine.writer) := by
    intro p begins
    obtain ⟨fails, ends⟩ := fails_of_begins some valid barren sound begins
    -- settling is one of the schedules, and long enough
    obtain ⟨schedule, settled, enough⟩ := settleWithin_eq (rounds (ordered intents)) p
    refine ⟨fails, ⟨_, ends⟩, schedule, enough.elim id (ends schedule), ?_⟩
    rw [write_of_begins begins, settled]
  refine ⟨?_, runs, fun idle => ?_⟩
  · by_cases begins : ∃ p, Begins settings concurrency (ordered intents) sink p
    · obtain ⟨p, begins⟩ := begins
      obtain ⟨fails, -, schedule, done, written⟩ := runs p begins
      obtain ⟨e, failed⟩ := (fails schedule done).error
      exact ⟨e, _, by rw [written, failed]⟩
    · obtain ⟨e, writer, data, written, -⟩ := write_refused ⟨i, member⟩ named distinct sound begins
      exact ⟨e, writer, written⟩
  · obtain ⟨e, writer, data, written, rest⟩ :=
      write_refused ⟨i, member⟩ named distinct sound idle
    exact ⟨data, by rw [written]; exact rest.1, rest.2⟩

/-- One intent, whose source ends inside the length of a record. -/
def cutIntents : List Intent := [⟨⟨"a", "b"⟩, "{}", 1, .opens (.ofBytes [0x10, 0x00])⟩]

theorem spoiled_cutIntents : (∀ i ∈ cutIntents, i.ns.isNamed) ∧ (cutIntents.map (·.ns)).Nodup ∧
    ∃ i ∈ cutIntents, i.origin.Spoiled 128 := by
  refine ⟨by decide, by decide, _, List.mem_singleton_self _, ?_⟩
  exact Origin.spoiled_of_short Stream.Schedule.moving_steady (by decide) (by decide)

theorem write_fails_cut_source :
    (((∀ i ∈ cutIntents, i.ns.isNamed) ∧ (cutIntents.map (·.ns)).Nodup ∧
      ∃ i ∈ cutIntents, i.origin.Spoiled 128) ∧ Sink.empty.Sound) ∧
    ∃ e writer, write ⟨128, none⟩ 1 cutIntents .empty = (.error e, writer) := by
  obtain ⟨named, distinct, spoiled⟩ := spoiled_cutIntents
  exact ⟨⟨spoiled_cutIntents, Sink.sound_empty⟩,
    (write_fails ⟨128, none⟩ 1 cutIntents .empty (by decide) named distinct spoiled
      Sink.sound_empty).1⟩

/-- Its worker closes the namespace in failing, which makes what was written a whole archive. -/
theorem verified_after_failure :
    (((∀ i ∈ cutIntents, i.ns.isNamed) ∧ (cutIntents.map (·.ns)).Nodup ∧
      ∃ i ∈ cutIntents, i.origin.Spoiled 128) ∧ Sink.empty.Sound) ∧
    (∃ e, (write ⟨128, none⟩ 1 cutIntents .empty).1 = .error e) ∧
    ∃ s, Restore.examine (.ofBytes (write ⟨128, none⟩ 1 cutIntents .empty).2.sink.accepted) 128 =
      .ok s := by
  refine ⟨⟨spoiled_cutIntents, Sink.sound_empty⟩, ?_, ?_⟩
  · have failed : (write ⟨128, none⟩ 1 cutIntents .empty).1.isOk = false := by cbv
    cases verdict : (write ⟨128, none⟩ 1 cutIntents .empty).1 with
    | error e => exact ⟨e, rfl⟩
    | ok s => simp [verdict, Except.isOk, Except.toBool] at failed
  · have header : Record.Formed 128 (ArchiveHeader.current 1).record :=
      Record.check_eq_ok_iff.1 (by cbv)
    have entry : Record.Formed 128 (CatalogEntry.record ⟨⟨"a", "b"⟩, "{}"⟩) :=
      Record.check_eq_ok_iff.1 (by cbv)
    have block : Record.Formed 128 (CollectionHeader.record ⟨⟨"a", "b"⟩, true⟩) :=
      Record.check_eq_ok_iff.1 (by cbv)
    let c : Catalog := ⟨.current 1, [⟨⟨"a", "b"⟩, "{}"⟩], List.nodup_singleton _⟩
    let l : Layout := ⟨c.front, [.ofHeader ⟨⟨"a", "b"⟩, true⟩ []]⟩
    have written : (write ⟨128, none⟩ 1 cutIntents .empty).2.sink.accepted = l.bytes := by cbv
    have formed : c.front.Formed 128 :=
      Catalog.formed_front header (by simpa [c] using ⟨entry, by decide⟩)
    rw [written, Restore.examine_layout_iff (l := l) Stream.Schedule.sound_steady formed
      (by simpa [l] using Block.formed_ofHeader block (by simp)) rfl]
    refine ⟨by decide, ?_⟩
    constructor <;> simp [l, c, Catalog.front, Catalog.Front.namespaces]

end Dump
end DumpArchive
