import DumpArchive.Proofs.SingleWorkerDump
import DumpArchive.Proofs.Unpacking

/-! What is packed from one directory, unpacked into another and packed again. The collections that
are not excluded come back as they were, and one worker packs them into the same archive. -/
namespace DumpArchive

namespace Dump

variable {concurrency : UInt64} {intents : List Intent} {records : Namespace → List Bytes}
  {data : Bytes} {p q : Pool} {settings : Settings} {sink : Sink}

/-- Bytes that a dump can leave when it is done, in whatever order its workers and its engine take
their turns. -/
def Leaves (concurrency : UInt64) (intents : List Intent) (data : Bytes) : Prop :=
  ∃ p schedule s, Begins .default concurrency (ordered intents) .empty p ∧
    (p.execute schedule).isDone ∧ (p.execute schedule).result = .ok s ∧
    (p.execute schedule).exchange.engine.writer.sink.accepted = data

theorem Begins.unique (first : Begins settings concurrency intents sink p)
    (second : Begins settings concurrency intents sink q) : p = q := by
  obtain ⟨c, writer, made, written, begun⟩ := first
  obtain ⟨d, other, also, wrote, again⟩ := second
  obtain rfl := Except.ok.inj (made.symm.trans also)
  obtain ⟨-, rfl⟩ := Prod.mk.inj (written.symm.trans wrote)
  exact Except.ok.inj (begun.symm.trans again)

theorem Leaves.archived (leaves : Leaves concurrency intents data)
    (feasible : Feasible .default concurrency intents records) :
    ∃ s, Archived Record.defaultMax concurrency (ordered intents) records data s := by
  obtain ⟨p, schedule, s, begins, done, result, rfl⟩ := leaves
  obtain ⟨q, begun, completes, -⟩ := write_of_feasible feasible Sink.sound_empty
  obtain rfl := begun.unique begins
  obtain ⟨-, -, total, data, -, accepted, archived⟩ := (completes schedule).done done
  exact ⟨total, by rwa [accepted]⟩

/-- What one worker leaves does not depend on the order of the turns. -/
theorem Leaves.eq_of_solo {other : Bytes} (first : Leaves 1 intents data)
    (second : Leaves 1 intents other) (feasible : Feasible .default 1 intents records) :
    data = other := by
  have leaves : ∀ bytes, Leaves 1 intents bytes → ∃ c, Dump.catalog 1 (ordered intents) = .ok c ∧
      bytes = soloBytes c (ordered intents) records := by
    rintro bytes ⟨p, schedule, s, begins, done, -, rfl⟩
    obtain ⟨c, made, accepted⟩ :=
      feasible.ordered.equipped.accepted_solo Sink.sound_empty begins schedule done
    exact ⟨c, made, accepted⟩
  obtain ⟨c, made, rfl⟩ := leaves data first
  obtain ⟨d, again, rfl⟩ := leaves other second
  obtain rfl := Except.ok.inj (made.symm.trans again)
  rfl

/-- A dump that nothing stands in the way of leaves such bytes. -/
theorem write_leaves (feasible : Feasible .default concurrency intents records) :
    ∃ s writer, write .default concurrency intents .empty = (.ok s, writer) ∧
      Leaves concurrency intents writer.sink.accepted := by
  obtain ⟨p, begins, completes, -, schedule, done, written⟩ :=
    write_of_feasible feasible Sink.sound_empty
  obtain ⟨-, -, s, data, result, -, -⟩ := (completes schedule).done done
  exact ⟨s, _, by rw [written, result], p, schedule, s, begins, done, result, rfl⟩

end Dump

namespace Collection

variable {cs ds : List Collection} {below : Location} {node : Node}

/-- The largest first, as they are dumped. -/
def ordered (cs : List Collection) : List Collection :=
  cs.mergeSort fun a b => b.data.length.toUInt64 ≤ a.data.length.toUInt64

theorem perm_ordered (cs : List Collection) : (ordered cs).Perm cs := List.mergeSort_perm ..

theorem ordered_intents (cs : List Collection) :
    Dump.ordered (cs.map intent) = (ordered cs).map intent :=
  (List.map_mergeSort (f := intent) fun _ _ _ _ => rfl).symm

theorem shelved_iff : Shelved cs below node ↔ ∃ c ∈ cs,
    below = [c.ns.db] ∧ node = .directory ∨ below = [c.ns.db, c.file] ∧ node = .file c.data ∨
      below = [c.ns.db, c.description] ∧ node = .file (Bytes.ofText c.metadata) := by
  constructor
  · intro shelved
    cases shelved with
    | @database c member => exact ⟨c, member, .inl ⟨rfl, rfl⟩⟩
    | @records c member => exact ⟨c, member, .inr (.inl ⟨rfl, rfl⟩)⟩
    | @description c member => exact ⟨c, member, .inr (.inr ⟨rfl, rfl⟩)⟩
  · rintro ⟨c, member, ⟨rfl, rfl⟩ | ⟨rfl, rfl⟩ | ⟨rfl, rfl⟩⟩
    · exact .database member
    · exact .records member
    · exact .description member

/-- A directory after collections were unpacked into it, when it was empty before. -/
structure Restored (t : Tree) (place : Location) (cs : List Collection) (u : Tree) : Prop where
  home : u.workingDirectory = t.workingDirectory
  elsewhere : ∀ p, (p = place ∨ ¬ place <+: p) → u.lookup p = t.lookup p
  below : ∀ below node, below ≠ [] →
    (u.lookup (place ++ below) = some node ↔ Shelved cs below node)

theorem restored_of_shelf {t u : Tree} {root : String} {place : Location}
    (distinct : (cs.map (·.ns)).Nodup)
    (shelf : Shelf t root place (cs.map (·.ns.db) ++ cs.map (·.ns.db)) (writes cs) u) :
    Restored t place cs u where
  home := shelf.home
  elsewhere := shelf.elsewhere
  below := by
    intro below node something
    rw [shelf.lookup_below something]
    constructor
    · rintro (⟨db, made, rfl, rfl⟩ | ⟨db, name, content, last, rfl, rfl⟩)
      · rw [List.mem_append, or_self] at made
        obtain ⟨c, member, rfl⟩ := List.mem_map.1 made
        exact .database member
      · exact (held_writes distinct).1 last
    · intro shelved
      cases shelved with
      | database member =>
        exact .inl ⟨_, List.mem_append_left _ (List.mem_map_of_mem member), rfl, rfl⟩
      | records member =>
        exact .inr ⟨_, _, _, (held_writes distinct).2 (.records member), rfl, rfl⟩
      | description member =>
        exact .inr ⟨_, _, _, (held_writes distinct).2 (.description member), rfl, rfl⟩

variable {t u : Tree} {place : Location} {c d : Collection}

/-- A file of records that is found is that of a collection. -/
theorem Restored.file_iff (restored : Restored t place cs u) {db collection : String}
    {data : Bytes} :
    u.lookup (place ++ [db] ++ [collection ++ ".bson"]) = some (.file data) ↔
      ∃ c ∈ cs, c.ns = ⟨db, collection⟩ ∧ c.data = data := by
  rw [List.append_assoc, restored.below _ _ (by simp), shelved_iff]
  constructor
  · rintro ⟨c, member, ⟨split, -⟩ | ⟨split, same⟩ | ⟨split, -⟩⟩
    · simp at split
    · obtain ⟨rfl, named⟩ : db = c.ns.db ∧ collection ++ ".bson" = c.file := by simpa using split
      have names : collection = c.ns.collection := (String.append_left_inj _).1 named
      exact ⟨c, member, by rw [names], (Node.file.inj same).symm⟩
    · have named : collection ++ ".bson" = c.description := by simpa using (List.cons.inj split).2
      exact absurd named (file_ne_description ⟨⟨db, collection⟩, [], ""⟩ c)
  · rintro ⟨c, member, own, rfl⟩
    exact ⟨c, member, .inr (.inl ⟨by simp [file, own], rfl⟩)⟩

theorem Restored.description_of_mem (restored : Restored t place cs u) (member : c ∈ cs) :
    u.lookup (place ++ [c.ns.db] ++ [c.description]) =
      some (.file (Bytes.ofText c.metadata)) := by
  rw [List.append_assoc, restored.below _ _ (by simp)]
  exact .description member

/-- The collections of the restored directory are those that were unpacked. -/
theorem Restored.held_iff {again : Command.PackArgs} (restored : Restored t place cs u)
    (named : ∀ c ∈ cs, c.ns.collection ≠ "") (wanted : ∀ c ∈ cs, Wanted again c.ns.collection)
    (described : ∀ c ∈ cs, ∃ node, Describes node c.metadata) :
    Held u again place d ↔ d ∈ cs := by
  have description {c : Collection} (member : c ∈ cs) :
      Describes (u.lookup (place ++ [c.ns.db] ++ [c.description])) c.metadata := by
    obtain ⟨node, found⟩ := described c member
    rw [restored.description_of_mem member]
    exact found.again
  constructor
  · rintro ⟨-, -, stands, reads⟩
    obtain ⟨c, member, same, data⟩ := restored.file_iff.1 stands
    have own := description member
    have text : c.metadata = d.metadata :=
      own.unique (by simpa [Collection.description, same] using reads)
    have whole : c = d := by
      cases c
      cases d
      simp_all
    exact whole ▸ member
  · intro member
    exact ⟨named d member, wanted d member, restored.file_iff.2 ⟨d, member, rfl, rfl⟩,
      description member⟩

end Collection

namespace Command.Pack

open Collection (Describes Held Restored Shelved Wanted)

variable {t u : Tree} {args again : PackArgs} {place there nest spot : Location} {data : Bytes}

/-- A directory that can be packed and a place for its archive, outside of it. -/
structure Ready (t : Tree) (args : PackArgs) (place there : Location) : Prop
    extends Packable t args place where
  staffed : args.concurrency ≠ 0
  file : args.archive ≠ standard
  target : t.target args.archive = .ok there
  outside : ¬ place <+: there

/-- The archive stands at its place, and nothing else has changed. -/
def Delivers (t : Tree) (there : Location) (o : Outcome) (data : Bytes) : Prop :=
  o.exitCode = .success ∧ o.tree = t.put there (.file data)

theorem Packable.exists_feasible {concurrency : UInt64} (packable : Packable t args place)
    (staffed : concurrency ≠ 0) :
    ∃ records, (∀ c ∈ packed t args place, c.data = (records c.ns).flatten) ∧
      Dump.Feasible .default concurrency ((packed t args place).map Collection.intent) records := by
  have some : 1 ≤ concurrency := by
    rw [UInt64.le_iff_toNat_le]
    have apart : concurrency.toNat ≠ 0 := fun zero => staffed (UInt64.toNat_inj.1 zero)
    exact Nat.one_le_iff_ne_zero.2 apart
  exact Collection.exists_feasible some packable.distinct
    (fun c member => (packable.legible_of_mem member).isNamed)
    fun c member => packable.storable c (packable.held member)

theorem Ready.run_delivers (ready : Ready t args place there) (format : OutputFormat)
    (stdin : Bytes) :
    ∃ s writer, Dump.write .default args.concurrency
        ((packed t args place).map Collection.intent) .empty = (.ok s, writer) ∧
      Dump.Leaves args.concurrency ((packed t args place).map Collection.intent)
        writer.sink.accepted ∧
      Delivers t there (run format args ⟨t, stdin⟩) writer.sink.accepted := by
  obtain ⟨records, -, feasible⟩ := ready.exists_feasible ready.staffed
  obtain ⟨s, writer, written, leaves⟩ := Dump.write_leaves feasible
  have runs :=
    ready.run_eq format stdin ready.staffed ready.file ready.target ready.outside written
  exact ⟨s, writer, written, leaves, by simp [Delivers, runs, Outcome.exitCode]⟩

/-- An empty directory with room for collections: no path to a file of one of them is too long. -/
structure Vacant (u : Tree) (out : String) (nest : Location) (cs : List Collection) : Prop where
  sound : u.Sound
  leads : u.Leads out nest
  empty : ∀ name, u.lookup (nest ++ [name]) = none
  short : ∀ c ∈ cs, (Path.metadata out c.ns).utf8ByteSize < 4096

/-- All directories are still there, so paths that led to one still do. -/
theorem Vacant.directory {v : Tree} {out : String} {cs : List Collection} {p : Location}
    (vacant : Vacant u out nest cs) (restored : Restored u nest cs v)
    (found : u.lookup p = some .directory) : v.lookup p = some .directory := by
  by_cases away : p = nest ∨ ¬ nest <+: p
  · rw [restored.elsewhere p away, found]
  · obtain ⟨apart, inside⟩ := not_or.1 away
    obtain ⟨below, rfl⟩ := not_not.1 inside
    cases below with
    | nil => simp at apart
    | cons name below =>
      have nothing := vacant.empty name
      cases below with
      | nil => simp [nothing] at found
      | cons other below =>
        have split : nest ++ name :: other :: below = nest ++ [name] ++ other :: below := by simp
        have above := vacant.sound.way (split ▸ found)
        simp [nothing] at above

/-- An archive that a pack can leave is unpacked into an empty directory. -/
theorem Packable.unpacks {concurrency : UInt64} {out archive : String} {stdin : Bytes}
    (packable : Packable t args place) (staffed : concurrency ≠ 0) (format : OutputFormat)
    (leaves : Dump.Leaves concurrency ((packed t args place).map Collection.intent) data)
    (vacant : Vacant u out nest (packed t args place))
    (source : openSource ⟨u, stdin⟩ archive = .ok (.ofBytes data)) :
    ∃ v text, Unpack.run format ⟨archive, out, []⟩ ⟨u, stdin⟩ = .printed v text ∧ v.Sound ∧
      Restored u nest (packed t args place) v := by
  obtain ⟨records, filled, feasible⟩ := packable.exists_feasible staffed
  obtain ⟨s, archived⟩ := leaves.archived feasible
  rw [Collection.ordered_intents] at archived
  have same := Collection.perm_ordered (packed t args place)
  have distinct : ((Collection.ordered (packed t args place)).map (·.ns)).Nodup :=
    (same.map _).nodup_iff.2 packable.distinct
  have fits : ∀ c ∈ Collection.ordered (packed t args place), Unpack.Fits out c := by
    intro c ordered
    have member := same.mem_iff.1 ordered
    have legible := packable.legible_of_mem member
    exact ⟨⟨legible.plain, legible.named, vacant.short c member⟩, packable.isName_db member⟩
  obtain ⟨v, runs, shelf⟩ := Unpack.run_eq format archived distinct
    (fun c ordered => filled c (same.mem_iff.1 ordered)) source vacant.sound vacant.leads
    vacant.empty fits
  obtain ⟨home, elsewhere, below⟩ := Collection.restored_of_shelf distinct shelf
  refine ⟨v, _, runs, shelf.sound, home, elsewhere, fun place node something => ?_⟩
  rw [below place node something, Collection.shelved_iff, Collection.shelved_iff]
  simp only [same.mem_iff]

/-- A directory that collections were unpacked into, to be packed as it is. -/
structure Whole (v : Tree) (again : PackArgs) (nest : Location) (cs : List Collection) : Prop where
  leads : v.Leads again.directory nest
  excluded : again.excluded = []
  starts : again.excludedStarts = []
  short : ∀ c ∈ cs, (Path.metadata again.directory c.ns).utf8ByteSize < 4096

/-- What is packed then are the collections that were packed at first. -/
theorem Packable.repacks {v : Tree} (packable : Packable t args place)
    (restored : Restored u nest (packed t args place) v) (sound : v.Sound)
    (whole : Whole v again nest (packed t args place)) :
    Packable v again nest ∧ packed v again nest = packed t args place := by
  have wanted (collection : String) : Wanted again collection :=
    ⟨by simp [whole.excluded], by simp [whole.starts]⟩
  have held (c : Collection) : Held v again nest c ↔ c ∈ packed t args place :=
    restored.held_iff (fun c member => (packable.held member).named) (fun c _ => wanted _)
      fun c member => ⟨_, (packable.held member).described⟩
  have same : packed v again nest = packed t args place :=
    Collection.eq_of_before (pairwise_packed sound nest) (pairwise_packed packable.sound place)
      fun c => (mem_packed sound).trans (held c)
  refine ⟨⟨sound, whole.leads, ?_, fun c again =>
    packable.storable c (packable.held ((held c).1 again))⟩, same⟩
  intro db collection data stands something _
  obtain ⟨c, member, own, -⟩ := restored.file_iff.1 stands
  have legible := packable.legible_of_mem member
  rw [← own]
  refine ⟨⟨legible.plain, legible.named, whole.short c member⟩, c.metadata, ?_⟩
  exact ((held c).2 member).described

/-- Packing is as it should be whatever the order of the turns: one worker leaves these bytes and no
others. -/
theorem Ready.solo (ready : Ready t args place there) (single : args.concurrency = 1)
    (format : OutputFormat) (stdin : Bytes) : ∃ data,
      Delivers t there (run format args ⟨t, stdin⟩) data ∧
      Dump.Leaves 1 ((packed t args place).map Collection.intent) data ∧
      ∀ other, Dump.Leaves 1 ((packed t args place).map Collection.intent) other →
        other = data := by
  obtain ⟨s, writer, -, leaves, delivers⟩ := ready.run_delivers format stdin
  obtain ⟨records, -, feasible⟩ := ready.exists_feasible ready.staffed
  rw [single] at leaves feasible
  exact ⟨_, delivers, leaves, fun other also => also.eq_of_solo leaves feasible⟩

/-- There and back. In whatever order the workers and the engine take their turns, packing comes to
a good end; whatever archive it then leaves is unpacked into an empty directory, which afterwards
holds just the collections that were not excluded. Packed again by one worker, it gives the one
archive that one worker makes of the original. -/
theorem pack_unpack (t : Tree) (args : PackArgs) (place there : Location)
    (ready : Ready t args place there) :
    ∃ cs : List Collection, cs.Pairwise Collection.Before ∧ (∀ c, c ∈ cs ↔ Held t args place c) ∧
    let intents := cs.map Collection.intent
    (∃ p, Dump.Begins .default args.concurrency (Dump.ordered intents) .empty p ∧
      (∃ n, ∀ schedule, Rounds p.actors n schedule → (p.execute schedule).isDone) ∧
      ∀ schedule, (p.execute schedule).isDone → ∃ s, (p.execute schedule).result = .ok s) ∧
    (∀ format stdin, ∃ data, Dump.Leaves args.concurrency intents data ∧
      Delivers t there (run format args ⟨t, stdin⟩) data) ∧
    ∀ format u out archive nest stdin data, Dump.Leaves args.concurrency intents data →
      Vacant u out nest cs → openSource ⟨u, stdin⟩ archive = .ok (.ofBytes data) →
      let o := Unpack.run format ⟨archive, out, []⟩ ⟨u, stdin⟩
      o.exitCode = .success ∧ Restored u nest cs o.tree ∧
        ∀ format again spot stdin, again.concurrency = 1 → Whole o.tree again nest cs →
          again.archive ≠ standard → o.tree.target again.archive = .ok spot → ¬ nest <+: spot →
          (∀ c, Held o.tree again nest c ↔ c ∈ cs) ∧
          ∃ data, Delivers t there (run format { args with concurrency := 1 } ⟨t, stdin⟩) data ∧
            Delivers o.tree spot (run format again ⟨o.tree, stdin⟩) data ∧
            ∀ other, Dump.Leaves 1 intents other → other = data := by
  refine ⟨packed t args place, pairwise_packed ready.sound place, fun c => mem_packed ready.sound,
    ?_, ?_, ?_⟩
  · obtain ⟨records, -, feasible⟩ := ready.exists_feasible ready.staffed
    obtain ⟨p, begins, completes, ends, -⟩ := Dump.write_of_feasible feasible Sink.sound_empty
    refine ⟨p, begins, ⟨_, ends⟩, fun schedule done => ?_⟩
    obtain ⟨-, -, s, data, result, -⟩ := (completes schedule).done done
    exact ⟨s, result⟩
  · intro format stdin
    obtain ⟨s, writer, -, leaves, delivers⟩ := ready.run_delivers format stdin
    exact ⟨_, leaves, delivers⟩
  · intro format u out archive nest stdin data leaves vacant source
    obtain ⟨v, text, runs, sound, restored⟩ :=
      ready.unpacks ready.staffed format leaves vacant source
    rw [runs]
    refine ⟨rfl, restored, ?_⟩
    intro format again spot stdin single whole file target outside
    obtain ⟨packable, same⟩ := ready.repacks restored sound whole
    have one : (1 : UInt64) ≠ 0 := by decide
    have staffed : again.concurrency ≠ 0 := single ▸ one
    have alone : Ready t { args with concurrency := 1 } place there :=
      ⟨⟨ready.sound, ready.leads, fun db collection data stands named wanted =>
          ready.legible db collection data stands named ⟨wanted.name, wanted.start⟩,
        fun c held => ready.storable c ⟨held.named, ⟨held.wanted.name, held.wanted.start⟩,
          held.stands, held.described⟩⟩, one, ready.file, ready.target, ready.outside⟩
    have once : Ready v again nest spot := ⟨packable, staffed, file, target, outside⟩
    obtain ⟨data, delivers, -, all⟩ := alone.solo rfl format stdin
    obtain ⟨second, delivers', leaves', -⟩ := once.solo single format stdin
    have both : packed t { args with concurrency := 1 } place = packed v again nest := same.symm
    obtain rfl := all second (both ▸ leaves')
    exact ⟨fun c => (mem_packed sound).symm.trans (by rw [same]), second, delivers, delivers', all⟩

/-- A database with one collection that has blanks around its description, beside one that is
excluded by its name and one by its beginning, and an empty directory. -/
def sample : Tree where
  nodes := [(["from"], .directory), (["to"], .directory), (["from", "db"], .directory),
    (["from", "db", "c.bson"], .file [5, 0, 0, 0, 0]),
    (["from", "db", "c.metadata.json"], .file (Bytes.ofText "\n \x7b\x7d\t\r\n")),
    (["from", "db", "skip.bson"], .file [1]), (["from", "db", "tmp_1.bson"], .file [2])]
  workingDirectory := []

def sampleArgs : PackArgs := ⟨"/from", "/archive", 2, ["skip"], ["tmp"]⟩

/-- The one collection of the sample that is not excluded. -/
def sampleHeld : Collection := ⟨⟨"db", "c"⟩, [5, 0, 0, 0, 0], "\x7b\x7d"⟩

theorem isName_sample : ∀ name ∈ ["from", "to", "db", "c.bson", "c.metadata.json", "skip.bson",
    "tmp_1.bson"], Path.IsName name := by
  simp only [List.forall_mem_cons, List.not_mem_nil, false_implies, implies_true, and_true]
  refine ⟨?_, ?_, ?_, ?_, ?_, ?_, ?_⟩ <;>
    exact ⟨by decide, by decide, by decide, by decide, by decide, by decide⟩

theorem sound_sample : sample.Sound where
  distinct := by decide
  rooted := by decide
  named := by
    intro n member name step
    apply isName_sample
    have all : ∀ n ∈ sample.nodes, ∀ name ∈ n.1, name ∈ ["from", "to", "db", "c.bson",
        "c.metadata.json", "skip.bson", "tmp_1.bson"] := by decide
    exact all n member name step
  founded := by decide

theorem file_sample {db collection : String} {data : Bytes}
    (found : sample.lookup (["from"] ++ [db] ++ [collection ++ ".bson"]) = some (.file data)) :
    db = "db" ∧ (collection = "c" ∧ data = [5, 0, 0, 0, 0] ∨ collection = "skip" ∨
      collection = "tmp_1") := by
  have member := (sound_sample.mem_iff (by simp)).2 found
  have ending (whole : String) (same : collection ++ ".bson" = whole ++ ".bson") :
      collection = whole := (String.append_left_inj _).1 same
  simp only [sample, List.cons_append, List.nil_append, List.mem_cons, Prod.mk.injEq,
    List.cons.injEq, List.cons_ne_nil, and_false, and_true, reduceCtorEq,
    List.not_mem_nil, or_false, false_or, Node.file.injEq, true_and] at member
  rcases member with ⟨⟨rfl, name⟩, rfl⟩ | ⟨⟨rfl, name⟩, -⟩ | ⟨⟨rfl, name⟩, -⟩ | ⟨⟨rfl, name⟩, -⟩
  · exact ⟨rfl, .inl ⟨ending "c" name, rfl⟩⟩
  · exact absurd name (Path.file_ne_description collection "c")
  · exact ⟨rfl, .inr (.inl (ending "skip" name))⟩
  · exact ⟨rfl, .inr (.inr (ending "tmp_1" name))⟩

theorem wanted_sample {collection : String} : Wanted sampleArgs collection ↔
    collection ≠ "skip" ∧ ¬ "tmp".toList <+: collection.toList := by
  constructor
  · exact fun wanted => ⟨fun same => wanted.name (by simp [sampleArgs, same]),
      wanted.start "tmp" (by simp [sampleArgs])⟩
  · rintro ⟨name, start⟩
    exact ⟨by simpa [sampleArgs] using name, by simpa [sampleArgs] using start⟩

theorem collection_sample {db collection : String} {data : Bytes}
    (found : sample.lookup (["from"] ++ [db] ++ [collection ++ ".bson"]) = some (.file data))
    (wanted : Wanted sampleArgs collection) :
    db = "db" ∧ collection = "c" ∧ data = [5, 0, 0, 0, 0] := by
  obtain ⟨name, start⟩ := wanted_sample.1 wanted
  obtain ⟨rfl, ⟨rfl, rfl⟩ | rfl | rfl⟩ := file_sample found
  · exact ⟨rfl, rfl, rfl⟩
  · exact absurd rfl name
  · exact absurd (by decide) start

theorem describes_sample :
    Describes (sample.lookup ["from", "db", "c.metadata.json"]) "\x7b\x7d" := by
  have stands : sample.lookup ["from", "db", "c.metadata.json"] =
      some (.file (Bytes.ofText "\n \x7b\x7d\t\r\n")) := by decide
  rw [stands]
  exact .written (by decide +kernel) (Text.trimmed_iff.2 (by decide +kernel))

theorem held_sample {c : Collection} : Held sample sampleArgs ["from"] c ↔ c = sampleHeld := by
  constructor
  · rintro ⟨-, wanted, stands, described⟩
    obtain ⟨db, collection, data⟩ := collection_sample stands wanted
    obtain ⟨⟨_, _⟩, _, metadata⟩ := c
    obtain ⟨rfl, rfl, rfl⟩ : _ ∧ _ ∧ _ := ⟨db, collection, data⟩
    obtain rfl : metadata = "\x7b\x7d" := described.unique describes_sample
    rfl
  · rintro rfl
    exact ⟨by decide, wanted_sample.2 ⟨by decide, by decide⟩, by decide, describes_sample⟩

theorem target_sample : sample.target "/archive" = .ok ["archive"] :=
  Tree.target_eq_ok_iff.2 ⟨[], "archive", rfl, by decide, by decide, by decide, by decide⟩

theorem ready_sample : Ready sample sampleArgs ["from"] ["archive"] where
  sound := sound_sample
  leads := ⟨by decide, by cbv, by decide⟩
  legible := by
    intro db collection data found _ wanted
    obtain ⟨rfl, rfl, -⟩ := collection_sample found wanted
    exact ⟨⟨by decide, by decide, by decide⟩, _, describes_sample⟩
  storable := by
    intro c held
    obtain rfl := held_sample.1 held
    refine ⟨⟨[[5, 0, 0, 0, 0]], rfl, ?_⟩, by cbv⟩
    simp only [List.forall_mem_singleton]
    exact Record.check_eq_ok_iff.1 (by decide)
  staffed := by decide
  file := by decide
  target := target_sample
  outside := by decide

theorem vacant_sample (data : Bytes) {cs : List Collection} (held : ∀ c ∈ cs, c = sampleHeld) :
    Vacant (sample.put ["archive"] (.file data)) "/to" ["to"] cs where
  sound := by
    have named : Path.IsName "archive" :=
      ⟨by decide, by decide, by decide, by decide, by decide, by decide⟩
    have missing : sample.lookup ["archive"] = none := by decide
    have above : sample.lookup [] = some .directory := rfl
    exact sound_sample.put named above (by simp [missing])
  leads := by
    have leads : sample.Leads "/to" ["to"] := ⟨by decide, by cbv, by decide⟩
    exact leads.mono rfl fun _ => Tree.directory_put (by decide)
  empty := by
    intro name
    rw [Tree.lookup_put (by decide), if_neg (by simp)]
    cases found : sample.lookup (["to"] ++ [name]) with
    | none => rfl
    | some node =>
      have member := (sound_sample.mem_iff (by simp)).2 found
      simp [sample] at member
  short := by
    intro c member
    obtain rfl := held c member
    decide

/-- The blanks around the description are gone, and so are both collections that are excluded. -/
theorem pack_unpack_sample : ∃ data v again,
    Delivers sample ["archive"] (run .json sampleArgs ⟨sample, []⟩) data ∧
    (Unpack.run .json ⟨"/archive", "/to", []⟩
      ⟨sample.put ["archive"] (.file data), []⟩).exitCode = .success ∧
    (Unpack.run .json ⟨"/archive", "/to", []⟩
      ⟨sample.put ["archive"] (.file data), []⟩).tree = v ∧
    (∀ below node, below ≠ [] → (v.lookup (["to"] ++ below) = some node ↔
      (below, node) ∈ [(["db"], .directory), (["db", "c.bson"], .file [5, 0, 0, 0, 0]),
        (["db", "c.metadata.json"], .file (Bytes.ofText "\x7b\x7d"))])) ∧
    Delivers sample ["archive"] (run .json { sampleArgs with concurrency := 1 } ⟨sample, []⟩)
      again ∧
    Delivers v ["other"] (run .json ⟨"/to", "/other", 1, [], []⟩ ⟨v, []⟩) again := by
  obtain ⟨cs, -, held, -, packs, unpacks⟩ :=
    pack_unpack sample sampleArgs ["from"] ["archive"] ready_sample
  have sole (c : Collection) : c ∈ cs ↔ c = sampleHeld := (held c).trans held_sample
  obtain ⟨data, leaves, delivers⟩ := packs .json []
  have vacant := vacant_sample data fun c => (sole c).1
  have source : openSource ⟨sample.put ["archive"] (.file data), []⟩ "/archive" =
      .ok (.ofBytes data) := by
    have other : "/archive" ≠ standard := by decide
    simp [openSource, other, Tree.openFile, (Tree.target_put target_sample data).2]
  obtain ⟨success, restored, returns⟩ :=
    unpacks .json _ "/to" "/archive" ["to"] [] data leaves vacant source
  generalize unpacked : (Unpack.run .json ⟨"/archive", "/to", []⟩
    ⟨sample.put ["archive"] (.file data), []⟩).tree = v at restored returns
  have kept (p : Location) := vacant.directory restored (p := p)
  have leads : v.Leads "/to" ["to"] := vacant.leads.mono restored.home kept
  have spot : v.target "/other" = .ok ["other"] := by
    have before : sample.target "/other" = .ok ["other"] :=
      Tree.target_eq_ok_iff.2 ⟨[], "other", rfl, by decide, by decide, by decide, by decide⟩
    have free : v.lookup ["other"] ≠ some .directory := by
      rw [restored.elsewhere ["other"] (.inr (by decide)), Tree.lookup_put (by decide),
        if_neg (by decide)]
      decide
    have home : v.workingDirectory = sample.workingDirectory := restored.home
    exact Tree.target_mono home
      (fun p found => kept p (Tree.directory_put (by decide) found)) free before
  have whole : Whole v ⟨"/to", "/other", 1, [], []⟩ ["to"] cs := ⟨leads, rfl, rfl, vacant.short⟩
  obtain ⟨-, again, first, second, -⟩ := returns .json ⟨"/to", "/other", 1, [], []⟩ ["other"] []
    rfl whole (by decide) spot (by decide)
  refine ⟨data, v, again, delivers, success, unpacked, fun below node something => ?_, first, second⟩
  rw [restored.below below node something, Collection.shelved_iff]
  simp only [sole, exists_eq_left, List.mem_cons, Prod.mk.injEq, List.not_mem_nil, or_false]
  rfl

end Command.Pack
end DumpArchive
