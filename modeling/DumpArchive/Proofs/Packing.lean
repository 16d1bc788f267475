import DumpArchive.Proofs.Archiving
import DumpArchive.Proofs.Collecting

/-! Packing a directory: every collection that is not excluded goes into the archive with its
description, in whatever order the workers and the engine take their turns. -/
namespace DumpArchive

open Document (Fields Value)

theorem CollectionHeader.length_record_le (ns : Namespace) (eof : Bool) (metadata : String) :
    (CollectionHeader.record ⟨ns, eof⟩).length ≤ (CatalogEntry.record ⟨ns, metadata⟩).length := by
  have mark : (Bytes.ofText "EOF").length = 3 := by decide
  have key : (Bytes.ofText "metadata").length = 8 := by decide
  cases eof <;>
  · simp only [CollectionHeader.record, CatalogEntry.record, CollectionHeader.fields,
      CatalogEntry.fields, Fields.encode, Document.length_enclose, Fields.bytes, Value.payload,
      Value.string, Document.zeroEnded, Document.length_textBytes, List.length_cons,
      List.length_append, List.length_nil, mark, key, if_true, Bool.false_eq_true, if_false]
    omega

theorem ArchiveHeader.length_record_current (concurrent : Int32) :
    (ArchiveHeader.current concurrent).record.length = 50 := by
  have first : (Bytes.ofText "concurrent_collections").length = 22 := by decide
  have second : (Bytes.ofText "version").length = 7 := by decide
  have number : (Bytes.ofText ArchiveHeader.formatVersion).length = 3 := by decide
  simp [ArchiveHeader.record, ArchiveHeader.current, ArchiveHeader.fields, Fields.encode,
    Document.length_enclose, Fields.bytes, Value.payload, Value.string, Document.zeroEnded,
    Document.length_textBytes, first, second, number]

open Command (PackArgs)

namespace Collection

/-- A description that was found is found unchanged after it is written. -/
theorem Describes.again {node : Option Node} {metadata : String} (describes : Describes node metadata) :
    Describes (some (.file (Bytes.ofText metadata))) metadata := by
  cases describes with
  | missing => exact .written (by cbv) (Text.trimmed_iff.2 (by cbv))
  | written accepts trimmed =>
    obtain rfl := Text.trimmed_iff.1 trimmed
    exact .written (Json.accepts_trim accepts) trimmed.self

theorem Describes.unique {node : Option Node} {metadata other : String}
    (first : Describes node metadata) (second : Describes node other) : metadata = other :=
  Option.some.inj ((describes?_eq_some_iff.2 first).symm.trans (describes?_eq_some_iff.2 second))

/-- What is dumped of a collection. -/
def intent (c : Collection) : Dump.Intent :=
  ⟨c.ns, c.metadata, c.data.length.toUInt64, .opens (.ofBytes c.data)⟩

/-- The file is whole records, and the catalog can list the collection. -/
structure Storable (c : Collection) : Prop where
  whole : ∃ records : List Bytes, c.data = records.flatten ∧
    ∀ r ∈ records, Record.Formed Record.defaultMax r
  fits : (CatalogEntry.record ⟨c.ns, c.metadata⟩).length ≤ Record.defaultMax.toNat

variable {cs : List Collection} {c : Collection}

theorem fits_of_le {document : Bytes} (most : document.length ≤ Record.defaultMax.toNat) :
    Dump.Fits Record.defaultMax document := by
  have limit : Record.defaultMax.toNat = 16777216 := rfl
  refine ⟨most, ?_⟩
  unfold Document.Sized
  omega

theorem exists_records (distinct : (cs.map (·.ns)).Nodup) (storable : ∀ c ∈ cs, c.Storable) :
    ∃ records : Namespace → List Bytes, ∀ c ∈ cs, c.data = (records c.ns).flatten ∧
      ∀ r ∈ records c.ns, Record.Formed Record.defaultMax r := by
  induction cs with
  | nil => exact ⟨fun _ => [], by simp⟩
  | cons c rest ih =>
    obtain ⟨here, others⟩ := List.forall_mem_cons.1 storable
    obtain ⟨fresh, distinct⟩ := List.nodup_cons.1 distinct
    obtain ⟨records, filled⟩ := ih distinct others
    obtain ⟨own, whole⟩ := here.whole
    refine ⟨Function.update records c.ns own, List.forall_mem_cons.2 ⟨by simpa using whole, ?_⟩⟩
    intro other member
    have apart : other.ns ≠ c.ns := by
      intro same
      exact fresh (List.mem_map.2 ⟨other, member, same⟩)
    simpa [apart] using filled other member

/-- Nothing stands in the way of a dump of such collections. -/
theorem exists_feasible {concurrency : UInt64} (staffed : 1 ≤ concurrency)
    (distinct : (cs.map (·.ns)).Nodup) (named : ∀ c ∈ cs, c.ns.isNamed)
    (storable : ∀ c ∈ cs, c.Storable) :
    ∃ records, (∀ c ∈ cs, c.data = (records c.ns).flatten) ∧
      Dump.Feasible .default concurrency (cs.map intent) records := by
  obtain ⟨records, filled⟩ := exists_records distinct storable
  refine ⟨records, fun c member => (filled c member).1, ?_⟩
  have small : Dump.Settings.default.max.toNat < 2 ^ 63 := by decide
  refine ⟨small, rfl, staffed, ?named, ?distinct, ?gives, ?lead, ?listed, ?heads⟩
  case named => simpa [intent] using named
  case distinct => simpa [intent, Function.comp_def] using distinct
  case gives =>
    simp only [List.forall_mem_map]
    intro c member
    obtain ⟨split, formed⟩ := filled c member
    exact ⟨_, rfl, Stream.Schedule.sound_steady, split, formed⟩
  case lead =>
    apply fits_of_le
    rw [ArchiveHeader.length_record_current]
    decide
  case listed =>
    simp only [Dump.entries, List.map_map, List.forall_mem_map]
    exact fun c member => fits_of_le (storable c member).fits
  case heads =>
    simp only [List.forall_mem_map]
    intro c member eof
    exact fits_of_le ((CollectionHeader.length_record_le c.ns eof c.metadata).trans
      (storable c member).fits)

end Collection

namespace Command.Pack

open Collection (Held Legible AllLegible Storable found inventory kept read?_eq_some_iff)

variable {t u : Tree} {args : PackArgs} {place there : Location} {c : Collection}

/-- The collections that are not excluded. -/
def packed (t : Tree) (args : PackArgs) (place : Location) : List Collection :=
  (inventory t place).filter (kept args)

theorem mem_packed (sound : t.Sound) : c ∈ packed t args place ↔ Held t args place c := by
  rw [packed, List.mem_filter, Collection.mem_inventory sound, read?_eq_some_iff,
    Collection.describes?_eq_some_iff]
  constructor
  · rintro ⟨⟨-, -, named, stands, described⟩, keeps⟩
    exact ⟨named, Collection.isExcluded_eq_false_iff.1 (by simpa [kept] using keeps), stands,
      described⟩
  · rintro ⟨named, wanted, stands, described⟩
    exact ⟨⟨rfl, rfl, named, stands, described⟩,
      by simp [kept, Collection.isExcluded_eq_false_iff.2 wanted]⟩

theorem pairwise_packed (sound : t.Sound) (place : Location) :
    (packed t args place).Pairwise Collection.Before :=
  (Collection.pairwise_inventory sound place).filter _

/-- A directory that the path leads to, with collections that can be packed. Others may lie among
them if they are excluded. -/
structure Packable (t : Tree) (args : PackArgs) (place : Location) : Prop where
  sound : t.Sound
  leads : t.Leads args.directory place
  legible : AllLegible t args place
  storable : ∀ c, Held t args place c → c.Storable

theorem Packable.held (packable : Packable t args place) (member : c ∈ packed t args place) :
    Held t args place c := (mem_packed packable.sound).1 member

theorem Packable.legible_of_mem (packable : Packable t args place)
    (member : c ∈ packed t args place) : Legible t args.directory place c.ns := by
  have held := packable.held member
  exact packable.legible c.ns.db c.ns.collection c.data held.stands held.named held.wanted

theorem Packable.isName_db (packable : Packable t args place)
    (member : c ∈ packed t args place) : Path.IsName c.ns.db :=
  packable.sound.isName (packable.sound.above (packable.held member).stands)

theorem Packable.distinct (packable : Packable t args place) :
    ((packed t args place).map (·.ns)).Nodup := by
  rw [List.Nodup, List.pairwise_map]
  refine (pairwise_packed packable.sound place).imp ?_
  rintro a b (less | ⟨-, less⟩) same
  · exact lt_irrefl _ (same ▸ less)
  · rw [Collection.file, Collection.file, same] at less
    exact lt_irrefl _ less

/-- Where all directories stay and so does the file of a collection, this is what is dumped. -/
theorem Packable.intent_found (packable : Packable t args place)
    (same : u.workingDirectory = t.workingDirectory)
    (kept : ∀ p, t.lookup p = some .directory → u.lookup p = some .directory)
    (stays : ∀ below, u.lookup (place ++ below) = t.lookup (place ++ below))
    (member : c ∈ packed t args place) :
    intent u (found args.directory c) = c.intent := by
  have stands := (packable.held member).stands
  have legible := packable.legible_of_mem member
  have above : u.lookup (place ++ [c.ns.db]) = some .directory :=
    kept _ (packable.sound.above stands)
  have leads := (packable.leads.mono same kept).join (packable.isName_db member)
    legible.short_database above
  have finds : u.find (Path.join (Path.database args.directory c.ns) c.file) =
      .ok (.file c.data) := by
    rw [Collection.file]
    rw [Path.database, leads.find legible.isName_file legible.short_file, List.append_assoc, stays,
      ← List.append_assoc, ← Collection.file, stands]
  simp [intent, Collection.intent, found, Tree.openFile, finds]

/-- The archive is outside of what is packed, and a dump into it goes well: the archive is there,
and nothing else has changed. -/
theorem Packable.run_eq {s : Summary} {writer : Token.Writer} (packable : Packable t args place)
    (format : OutputFormat) (stdin : Bytes) (staffed : args.concurrency ≠ 0)
    (file : args.archive ≠ standard) (target : t.target args.archive = .ok there)
    (outside : ¬ place <+: there)
    (dumped : Dump.write .default args.concurrency
      ((packed t args place).map Collection.intent) .empty = (.ok s, writer)) :
    run format args ⟨t, stdin⟩ =
      ⟨t.put there (.file writer.sink.accepted), report format args s, [], none⟩ := by
  obtain ⟨directory, name, split, -, -, -, free⟩ := Tree.target_eq_ok_iff.1 target
  have something : there ≠ [] := by simp [split]
  have stays (below : Location) :
      (t.put there (.file [])).lookup (place ++ below) = t.lookup (place ++ below) := by
    rw [Tree.lookup_put something, if_neg]
    rintro rfl
    exact outside (List.prefix_append place below)
  have kept : ∀ p, t.lookup p = some .directory →
      (t.put there (.file [])).lookup p = some .directory :=
    fun p => Tree.directory_put free
  have same : (t.put there (.file [])).workingDirectory = t.workingDirectory := rfl
  have intents : ((packed t args place).map (found args.directory)).map
      (intent (t.put there (.file []))) = (packed t args place).map Collection.intent := by
    rw [List.map_map]
    apply List.map_congr_left
    intro c member
    exact packable.intent_found same kept stays member
  have collected : collect t args = .ok ((packed t args place).map (found args.directory)) :=
    collect_eq packable.sound packable.leads packable.legible
  simp only [run, staffed, if_false, collected, file, toFile, Tree.writeFile, target, dump, intents,
    dumped, (Tree.target_put target []).1, Tree.put_put]

end Command.Pack
end DumpArchive
