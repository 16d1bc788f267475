import DumpArchive.Proofs.Confinement
import DumpArchive.Proofs.Decoding
import DumpArchive.Proofs.Groups
import DumpArchive.Proofs.Packing
import DumpArchive.Proofs.Rereading
import DumpArchive.Proofs.Selection
import DumpArchive.Proofs.FileWrites

/-! Unpacking an archive of collections into an empty directory: the descriptions first, then a
file for each collection, and then the records that the archive has for it. -/
namespace DumpArchive

namespace Collection

variable {a b c : Collection} {cs : List Collection} {db name : String} {content : Bytes}

def described (c : Collection) : Write := ⟨c.ns.db, c.description, Bytes.ofText c.metadata⟩

def created (c : Collection) : Write := ⟨c.ns.db, c.file, []⟩

def stored (c : Collection) : Write := ⟨c.ns.db, c.file, c.data⟩

/-- All that is written when collections are unpacked, in this order. -/
def writes (cs : List Collection) : List Write :=
  cs.map described ++ cs.map created ++ cs.map stored

/-- What stands below a directory that holds just these collections. -/
inductive Shelved (cs : List Collection) : Location → Node → Prop
  | database {c : Collection} : c ∈ cs → Shelved cs [c.ns.db] .directory
  | records {c : Collection} : c ∈ cs → Shelved cs [c.ns.db, c.file] (.file c.data)
  | description {c : Collection} : c ∈ cs →
    Shelved cs [c.ns.db, c.description] (.file (Bytes.ofText c.metadata))

theorem file_ne_description (a b : Collection) : a.file ≠ b.description :=
  Path.file_ne_description _ _

theorem nodup_spots {ending : String} (distinct : (cs.map (·.ns)).Nodup) :
    (cs.map fun c => (c.ns.db, c.ns.collection ++ ending)).Nodup := by
  have apart : Function.Injective fun ns : Namespace => (ns.db, ns.collection ++ ending) := by
    intro ns other same
    obtain ⟨db, collection⟩ := Prod.mk.inj same
    cases ns
    cases other
    simp_all
  simpa [Function.comp_def] using distinct.map apart

/-- What is left after all writes are the descriptions and the records. -/
theorem held_writes (distinct : (cs.map (·.ns)).Nodup) :
    held (writes cs) db name = some content ↔ Shelved cs [db, name] (.file content) := by
  have files : ((cs.map stored).map Write.spot).Nodup := by
    rw [List.map_map]
    exact nodup_spots distinct
  have descriptions : ((cs.map described).map Write.spot).Nodup := by
    rw [List.map_map]
    exact nodup_spots distinct
  rw [writes, held_append, held_append]
  constructor
  · intro last
    cases records : held (cs.map stored) db name with
    | some data =>
      rw [records, Option.some_or] at last
      obtain rfl := Option.some.inj last
      obtain ⟨c, member, same⟩ := List.mem_map.1 ((held_eq_some_iff files).1 records)
      obtain ⟨rfl, rfl, rfl⟩ := Write.mk.inj same
      exact .records member
    | none =>
      have overwritten : held (cs.map created) db name = none := by
        rw [held_eq_none_iff] at records ⊢
        rwa [List.map_map] at records ⊢
      rw [records, overwritten, Option.none_or, Option.none_or] at last
      obtain ⟨c, member, same⟩ := List.mem_map.1 ((held_eq_some_iff descriptions).1 last)
      obtain ⟨rfl, rfl, rfl⟩ := Write.mk.inj same
      exact .description member
  · intro shelved
    cases shelved with
    | @records c member =>
      rw [(held_eq_some_iff files).2 (List.mem_map_of_mem (f := stored) member), Option.some_or]
    | @description c member =>
      have apart {g : Collection → Write} (own : ∀ d, (g d).spot = (d.ns.db, d.file)) :
          held (cs.map g) c.ns.db c.description = none := by
        rw [held_eq_none_iff, List.map_map]
        intro written
        obtain ⟨d, -, same⟩ := List.mem_map.1 written
        exact file_ne_description d c (Prod.mk.inj ((own d).symm.trans same)).2
      rw [apart fun _ => rfl, apart fun _ => rfl, Option.none_or, Option.none_or]
      exact (held_eq_some_iff descriptions).2 (List.mem_map_of_mem (f := described) member)

end Collection

namespace Command.Unpack

open Collection (described created stored writes Shelved)

variable {t u : Tree} {out : String} {place : Location} {databases : List String}
  {written : List Write} {c : Collection} {cs : List Collection}

def selected (out : String) (c : Collection) : Selected :=
  ⟨c.ns, Path.join (Path.database out c.ns) c.file⟩

def target (c : Collection) : Restore.Intent := ⟨c.ns, .opens .empty⟩

/-- The names of a collection lead below the directory that a path leads to. -/
structure Fits (out : String) (c : Collection) : Prop extends c.ns.Reachable out where
  inside : Path.IsName c.ns.db

theorem Fits.isPlain (fits : Fits out c) : c.ns.Plain := Path.isPlainNamespace_iff.1 fits.plain

theorem describe_eq (shelf : Shelf t out place databases written u) (fits : Fits out c) :
    ∃ v, describe (selected out c) c.metadata u = (.ok (), v) ∧
      Shelf t out place (databases ++ [c.ns.db]) (written ++ [c.described]) v := by
  obtain ⟨mid, v, made, wrote, after⟩ := shelf.deposit fits.inside fits.isName_description
    fits.short_database fits.short (Bytes.ofText c.metadata)
  have beside : Path.withExtension (selected out c).path "metadata.json" =
      Path.metadata out c.ns := fits.isPlain.withExtension_file
  have room : makeRoom (Path.metadata out c.ns) u = (.ok (), mid) :=
    (makeRoom_metadata fits.isPlain u).trans made
  refine ⟨v, ?_, after⟩
  rw [describe, beside]
  simp only [room]
  simp only [Path.metadata, Path.database, wrote]

theorem create_eq (shelf : Shelf t out place databases written u) (fits : Fits out c) :
    ∃ v, create (selected out c) u = (target c, v) ∧
      Shelf t out place (databases ++ [c.ns.db]) (written ++ [c.created]) v := by
  obtain ⟨mid, v, made, wrote, after⟩ := shelf.deposit fits.inside fits.isName_file
    fits.short_database fits.short_file []
  have room : makeRoom (selected out c).path u = (.ok (), mid) :=
    (makeRoom_file fits.isPlain u).trans made
  refine ⟨v, ?_, after⟩
  rw [create, room]
  simp only [selected, Collection.file, Path.database, wrote, target]

theorem describeAll_eq {catalog : Catalog} (shelf : Shelf t out place databases written u)
    (fits : ∀ c ∈ cs, Fits out c)
    (listed : ∀ c ∈ cs, catalog.entryFor? c.ns = some ⟨c.ns, c.metadata⟩) :
    ∃ v, describeAll catalog (cs.map (selected out)) u = (.ok (), v) ∧
      Shelf t out place (databases ++ cs.map (·.ns.db)) (written ++ cs.map described) v := by
  induction cs generalizing u databases written with
  | nil => exact ⟨u, rfl, by simpa using shelf⟩
  | cons c rest ih =>
    obtain ⟨here, others⟩ := List.forall_mem_cons.1 fits
    obtain ⟨known, later⟩ := List.forall_mem_cons.1 listed
    obtain ⟨v, first, mid⟩ := describe_eq shelf here
    obtain ⟨w, done, after⟩ := ih mid others later
    refine ⟨w, ?_, by simpa using after⟩
    have known : catalog.entryFor? (selected out c).ns = some ⟨c.ns, c.metadata⟩ := known
    rw [List.map_cons, describeAll, known]
    simp only [first, done]

theorem createAll_eq (shelf : Shelf t out place databases written u)
    (fits : ∀ c ∈ cs, Fits out c) :
    ∃ v, createAll (cs.map (selected out)) u = (cs.map target, v) ∧
      Shelf t out place (databases ++ cs.map (·.ns.db)) (written ++ cs.map created) v := by
  induction cs generalizing u databases written with
  | nil => exact ⟨u, rfl, by simpa using shelf⟩
  | cons c rest ih =>
    obtain ⟨here, others⟩ := List.forall_mem_cons.1 fits
    obtain ⟨v, first, mid⟩ := create_eq shelf here
    obtain ⟨w, done, after⟩ := ih mid others
    refine ⟨w, ?_, by simpa using after⟩
    simp only [List.map_cons, createAll, first, done]

/-- What the destinations have accepted is filed. -/
theorem store_eq {workers : List Restore.Worker} (shelf : Shelf t out place databases written u)
    (fits : ∀ c ∈ cs, Fits out c) (made : ∀ c ∈ cs, c.ns.db ∈ databases)
    (accepted : List.Forall₂ (fun c w => w.sink.accepted = c.data) cs workers) :
    Shelf t out place databases (written ++ cs.map stored)
      (store (cs.map (selected out)) (cs.map target) workers u) := by
  induction accepted generalizing u written with
  | nil => simpa [store] using shelf
  | @cons c w rest workers same _ ih =>
    obtain ⟨here, others⟩ := List.forall_mem_cons.1 fits
    obtain ⟨known, later⟩ := List.forall_mem_cons.1 made
    obtain ⟨v, wrote, mid⟩ := shelf.writeFile known here.inside here.isName_file
      here.short_database here.short_file c.data
    have after : Shelf t out place databases (written ++ [c.stored] ++ rest.map stored) _ :=
      ih mid others later
    simp only [List.map_cons, store, target, selected, same, Collection.file, Path.database, wrote]
    simpa using after

theorem select_eq (refuse : EngineError → Failure) (fits : ∀ c ∈ cs, Fits out c) :
    select refuse out (cs.map (·.ns)) = .ok (cs.map (selected out)) := by
  have plain : ∀ ns ∈ cs.map (·.ns), ns.Plain := by
    rw [List.forall_mem_map]
    exact fun c member => (fits c member).isPlain
  rw [select_of_plain refuse plain, List.map_map]
  rfl

/-- A restore of all collections of an archive gives each destination the data of its own. -/
theorem restore_eq {concurrency : UInt64} {records : Namespace → List Bytes} {data : Bytes}
    {s : Summary}
    (archived : Dump.Archived Record.defaultMax concurrency (cs.map Collection.intent) records data s)
    (distinct : (cs.map (·.ns)).Nodup) (filled : ∀ c ∈ cs, c.data = (records c.ns).flatten) :
    ∃ a reader, Restore.openArchive (.ofBytes data) Record.defaultMax none = (.ok a, reader) ∧
      a.catalog.entries = cs.map (fun c => ⟨c.ns, c.metadata⟩) ∧
      (∃ ready, Restore.prepare (cs.map target) a = .ok ready) ∧
      (Restore.restore (cs.map target) a).1 = .ok s ∧
      List.Forall₂ (fun c w => w.sink.accepted = c.data) cs
        (Restore.restore (cs.map target) a).2 := by
  obtain ⟨a, reader, opened, -, entries, verified⟩ :=
    archived.verified (.ofBytes data) Stream.Schedule.sound_steady rfl
  have entries : a.catalog.entries = cs.map (fun c => ⟨c.ns, c.metadata⟩) := by
    rw [entries, Dump.entries, List.map_map]
    rfl
  have listed : a.catalog.namespaces = cs.map (·.ns) := by
    rw [Catalog.namespaces, entries, List.map_map]
    rfl
  have apart : ((cs.map target).map (·.ns)).Nodup := by rwa [List.map_map]
  have known : ∀ i ∈ cs.map target, i.ns ∈ a.catalog.namespaces := by
    rw [listed, List.forall_mem_map]
    exact fun c member => List.mem_map_of_mem member
  have willing : ∀ i ∈ cs.map target, i.Willing := by
    rw [List.forall_mem_map]
    exact fun c member => ⟨.empty, rfl, Sink.sound_empty.takes⟩
  have steady : ∀ i ∈ cs.map target, i.Steady := by
    rw [List.forall_mem_map]
    intro c member sink opens
    obtain rfl := Restore.Destination.opens.inj opens
    rfl
  have small : Record.defaultMax.toNat < 2 ^ 63 := by decide
  obtain ⟨f, w, tail, last, list, split, formed, same, settled, restored⟩ :=
    Restore.exists_settled Stream.Schedule.sound_steady small opened apart known willing
  obtain ⟨rfl, whole, -⟩ := settled.complete s verified
  -- the blocks that were read are those of the archive
  obtain ⟨l, laid, bytes, -, filed⟩ := archived.layout
  have blocks : (⟨f, w.blocks⟩ : Layout).bytes = l.bytes := by
    have read : data = f.bytes ++ (w.bytes ++ []) := split
    rw [← bytes, read, Layout.bytes]
    simp [Wire.bytes, Wire.blocks, whole]
  obtain rfl := Layout.unique formed settled.formed laid.front laid.blocks blocks
  obtain ⟨-, -, uncapped⟩ := Restore.openArchive_eq_ok_iff.1 opened
  obtain ⟨roster, prepared, -⟩ := Restore.prepare_eq (same.named formed) uncapped apart known
  refine ⟨a, reader, opened, entries, ⟨_, prepared⟩, ?_, ?_⟩
  · rw [restored, Restore.rootCause_dismiss settled steady, verified]
  · rw [restored]
    have stored := List.forall₂_map_left_iff.1 (Restore.stored_dismiss settled)
    rw [List.forall₂_iff_zip] at stored ⊢
    refine ⟨stored.1, ?_⟩
    intro c worker pair
    obtain ⟨-, sink, opens, accepted⟩ := stored.2 pair
    obtain rfl := Restore.Destination.opens.inj opens
    have member := (List.of_mem_zip pair).1
    have own : Block.recordsOf c.ns w.blocks = records c.ns :=
      filed c.intent (List.mem_map_of_mem member)
    rw [accepted, filled c member, ← own]
    rfl

/-- An archive is in no empty directory, so what is written there leaves it as it is. -/
theorem undisturbed {data stdin : Bytes} {archive : String} (sound : t.Sound)
    (source : openSource ⟨t, stdin⟩ archive = .ok (.ofBytes data))
    (empty : ∀ name, t.lookup (place ++ [name]) = none)
    (shelf : Shelf t out place databases written u) : Undisturbed ⟨t, stdin⟩ archive u := by
  intro named there leads
  obtain ⟨other, also, stands⟩ := Tree.exists_of_find (find_of_openSource named source)
  obtain rfl : other = there := Except.ok.inj (also.symm.trans leads)
  refine shelf.elsewhere other ?_
  by_contra inside
  obtain ⟨apart, below⟩ : other ≠ place ∧ place <+: other := by simpa using inside
  obtain ⟨_ | ⟨name, more⟩, rfl⟩ := below
  · simp at apart
  · cases more with
    | nil => simp [empty name] at stands
    | cons next more =>
      have above : t.lookup (place ++ [name]) = some .directory := by
        have stands : t.lookup (place ++ [name] ++ next :: more) = some (.file data) := by
          rwa [List.append_assoc]
        exact sound.way stands
      simp [empty name] at above

/-- Unpacking such an archive into an empty directory succeeds and writes all collections. -/
theorem run_eq {concurrency : UInt64} {records : Namespace → List Bytes} {data stdin : Bytes}
    {s : Summary} {archive : String} (format : OutputFormat)
    (archived : Dump.Archived Record.defaultMax concurrency (cs.map Collection.intent) records data s)
    (distinct : (cs.map (·.ns)).Nodup) (filled : ∀ c ∈ cs, c.data = (records c.ns).flatten)
    (source : openSource ⟨t, stdin⟩ archive = .ok (.ofBytes data)) (sound : t.Sound)
    (leads : t.Leads out place) (empty : ∀ name, t.lookup (place ++ [name]) = none)
    (fits : ∀ c ∈ cs, Fits out c) :
    ∃ v, run format ⟨archive, out, []⟩ ⟨t, stdin⟩ =
        .printed v (Report.summary format (Report.schema "unpack-summary") archive s) ∧
      Shelf t out place (cs.map (·.ns.db) ++ cs.map (·.ns.db)) (writes cs) v := by
  obtain ⟨a, reader, opened, entries, ⟨ready, prepared⟩, restored, accepted⟩ :=
    restore_eq archived distinct filled
  have catalog : openArchive ⟨t, stdin⟩ archive = .ok a := by
    simp only [openArchive, source, opened]
  have listed : a.catalog.namespaces = cs.map (·.ns) := by
    rw [Catalog.namespaces, entries, List.map_map]
    rfl
  have selects : selection ⟨archive, out, []⟩ a.catalog = .ok (cs.map (selected out)) := by
    rw [selection, if_pos rfl, listed]
    exact select_eq _ fits
  have known : ∀ c ∈ cs, a.catalog.entryFor? c.ns = some ⟨c.ns, c.metadata⟩ := by
    intro c member
    have entry : (⟨c.ns, c.metadata⟩ : CatalogEntry) ∈ a.catalog.entries :=
      entries ▸ List.mem_map_of_mem (f := fun c : Collection => CatalogEntry.mk c.ns c.metadata) member
    exact Catalog.entryFor?_of_mem entry
  obtain ⟨v, describes, first⟩ := describeAll_eq (.start sound leads empty) fits known
  obtain ⟨w, creates, second⟩ := createAll_eq first fits
  have third := store_eq second fits
    (fun c member => List.mem_append_right _ (List.mem_map_of_mem member)) accepted
  have again : readOn ⟨t, stdin⟩ archive w a = a :=
    readOn_eq source catalog (undisturbed sound source empty second)
  have restores : restore (readOn ⟨t, stdin⟩ archive) a (cs.map (selected out)) v =
      (.ok s, store (cs.map (selected out)) (cs.map target) (Restore.restore (cs.map target) a).2 w) := by
    have asked : (cs.map (selected out)).map (fun s => (⟨s.ns, .opens .empty⟩ : Restore.Intent)) =
        cs.map target := by
      rw [List.map_map]
      rfl
    simp only [restore, asked, prepared, creates, again, restored]
  refine ⟨_, ?_, by simpa [writes] using third⟩
  simp only [run, catalog, selects, describes, restores]

end Command.Unpack
end DumpArchive
