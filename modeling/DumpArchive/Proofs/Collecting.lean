import DumpArchive.Proofs.Elements
import DumpArchive.Proofs.Trees
import DumpArchive.Proofs.Trimming

/-! What is collected from a directory of databases: every collection that is not excluded, by the
name of its database and then by that of its file. -/
namespace DumpArchive

open DumpArchive.Path (IsName)
open Command (PackArgs)
open Command.Pack (collection? isExcluded)

/-- A collection as it lies in the directory of its database. -/
structure Collection where
  ns : Namespace
  data : Bytes
  metadata : String

namespace Collection

def file (c : Collection) : String := c.ns.collection ++ ".bson"

def description (c : Collection) : String := c.ns.collection ++ ".metadata.json"

/-- The description of a collection: the default one if there is no file for it, and otherwise the
text of the file without the white space around it. -/
inductive Describes : Option Node → String → Prop
  | missing : Describes none Command.Pack.defaultMetadata
  | written {text metadata : String} : Json.accepts text → Text.Trimmed text metadata →
    Describes (some (.file (Bytes.ofText text))) metadata

/-- Neither the name nor a beginning of it is excluded. -/
structure Wanted (args : PackArgs) (collection : String) : Prop where
  name : collection ∉ args.excluded
  start : ∀ start ∈ args.excludedStarts, ¬ start.toList <+: collection.toList

/-- A collection that lies below a directory and is not excluded. -/
structure Held (t : Tree) (args : PackArgs) (place : Location) (c : Collection) : Prop where
  named : c.ns.collection ≠ ""
  wanted : Wanted args c.ns.collection
  stands : t.lookup (place ++ [c.ns.db] ++ [c.file]) = some (.file c.data)
  described : Describes (t.lookup (place ++ [c.ns.db] ++ [c.description])) c.metadata

/-- The description that is found. -/
def describes? : Option Node → Option String
  | none => some Command.Pack.defaultMetadata
  | some .directory => none
  | some (.file content) => content.toText?.bind fun text =>
    if Json.accepts text then some (Text.trim text) else none

/-- The collection behind one name in the directory of a database. -/
def read? (t : Tree) (place : Location) (db name : String) : Option Collection :=
  match collection? name, t.lookup (place ++ [db] ++ [name]) with
  | some collection, some (.file data) =>
    (describes? (t.lookup (place ++ [db] ++ [collection ++ ".metadata.json"]))).map fun metadata =>
      ⟨⟨db, collection⟩, data, metadata⟩
  | _, _ => none

/-- All collections below a directory. -/
def inventory (t : Tree) (place : Location) : List Collection :=
  (t.names place).flatMap fun db => (t.names (place ++ [db])).filterMap (read? t place db)

/-- In the order of the names in the tree. -/
def Before (a b : Collection) : Prop :=
  a.ns.db < b.ns.db ∨ a.ns.db = b.ns.db ∧ a.file < b.file

def kept (args : PackArgs) (c : Collection) : Bool := !isExcluded args c.ns.collection

/-- As it is found by its path. -/
def found (root : String) (c : Collection) : Command.Pack.Found :=
  ⟨c.ns, Path.join (Path.database root c.ns) c.file, c.metadata, c.data.length.toUInt64⟩

/-- The names can be used on the way, and the description can be read. -/
structure Legible (t : Tree) (root : String) (place : Location) (ns : Namespace) : Prop
    extends ns.Reachable root where
  described : ∃ metadata,
    Describes (t.lookup (place ++ [ns.db] ++ [ns.collection ++ ".metadata.json"])) metadata

/-- Every collection that is not excluded. -/
def AllLegible (t : Tree) (args : PackArgs) (place : Location) : Prop :=
  ∀ db collection data,
    t.lookup (place ++ [db] ++ [collection ++ ".bson"]) = some (.file data) →
    collection ≠ "" → Wanted args collection → Legible t args.directory place ⟨db, collection⟩

variable {t : Tree} {args : PackArgs} {place : Location} {db name root : String} {c : Collection}

theorem describes?_eq_some_iff {node : Option Node} {metadata : String} :
    describes? node = some metadata ↔ Describes node metadata := by
  constructor
  · intro h
    cases node with
    | none =>
      obtain rfl := Option.some.inj h
      exact .missing
    | some node =>
      cases node with
      | directory => contradiction
      | file content =>
        obtain ⟨text, read, accepted⟩ := Option.bind_eq_some_iff.1 h
        obtain ⟨accepts, same⟩ := Option.ite_none_right_eq_some.1 accepted
        obtain rfl := Bytes.ofText_of_toText? read
        exact .written accepts (Text.trimmed_iff.2 (Option.some.inj same).symm)
  · rintro (_ | ⟨accepts, trimmed⟩)
    · rfl
    · simp [describes?, accepts, Text.trimmed_iff.1 trimmed]

theorem isExcluded_eq_false_iff {collection : String} :
    isExcluded args collection = false ↔ Wanted args collection := by
  simp only [isExcluded, Bool.or_eq_false_iff, decide_eq_false_iff_not, List.any_eq_false,
    List.isPrefixOf_iff_prefix]
  exact ⟨fun h => ⟨h.1, h.2⟩, fun h => ⟨h.name, h.start⟩⟩

theorem read?_eq_some_iff : read? t place db name = some c ↔
    c.ns.db = db ∧ c.file = name ∧ c.ns.collection ≠ "" ∧
      t.lookup (place ++ [db] ++ [name]) = some (.file c.data) ∧
      describes? (t.lookup (place ++ [db] ++ [c.description])) = some c.metadata := by
  unfold read?
  constructor
  · intro h
    split at h
    · next collection data known found =>
      obtain ⟨something, rfl⟩ := Command.Pack.collection?_eq_some_iff.1 known
      obtain ⟨metadata, described, rfl⟩ := Option.map_eq_some_iff.1 h
      exact ⟨rfl, rfl, something, found, described⟩
    · contradiction
  · rintro ⟨rfl, rfl, something, found, described⟩
    have known : collection? c.file = some c.ns.collection :=
      Command.Pack.collection?_eq_some_iff.2 ⟨something, rfl⟩
    rw [description] at described
    simp only [known, found, described, Option.map_some]

theorem mem_inventory (sound : t.Sound) :
    c ∈ inventory t place ↔ read? t place c.ns.db c.file = some c := by
  rw [inventory, List.mem_flatMap]
  constructor
  · rintro ⟨db, -, member⟩
    obtain ⟨name, -, read⟩ := List.mem_filterMap.1 member
    obtain ⟨rfl, rfl, -⟩ := read?_eq_some_iff.1 read
    exact read
  · intro read
    obtain ⟨-, -, -, found, -⟩ := read?_eq_some_iff.1 read
    exact ⟨c.ns.db, sound.mem_names.2 ⟨_, sound.above found⟩,
      List.mem_filterMap.2 ⟨c.file, sound.mem_names.2 ⟨_, found⟩, read⟩⟩

theorem pairwise_inventory (sound : t.Sound) (place : Location) :
    (inventory t place).Pairwise Before := by
  rw [inventory, List.pairwise_flatMap]
  refine ⟨fun db _ => ?_, (sound.names_pairwise place).imp ?_⟩
  · rw [List.pairwise_filterMap]
    refine (sound.names_pairwise _).imp ?_
    intro first second less a one b two
    obtain ⟨here, rfl, -⟩ := read?_eq_some_iff.1 one
    obtain ⟨there, rfl, -⟩ := read?_eq_some_iff.1 two
    exact .inr ⟨here.trans there.symm, less⟩
  · intro first second less a one b two
    obtain ⟨name, -, read⟩ := List.mem_filterMap.1 one
    obtain ⟨other, -, again⟩ := List.mem_filterMap.1 two
    obtain ⟨rfl, -⟩ := read?_eq_some_iff.1 read
    obtain ⟨rfl, -⟩ := read?_eq_some_iff.1 again
    exact .inl less

theorem not_before_self (c : Collection) : ¬ c.Before c := by
  rintro (less | ⟨-, less⟩)
  · exact lt_irrefl _ less
  · exact lt_irrefl _ less

theorem Before.asymm {a b : Collection} (first : a.Before b) (second : b.Before a) : False := by
  rcases first with less | ⟨same, less⟩ <;> rcases second with again | ⟨other, again⟩
  · exact lt_asymm less again
  · exact absurd less (other ▸ lt_irrefl _)
  · exact absurd again (same ▸ lt_irrefl _)
  · exact lt_asymm less again

/-- Two lists in order with the same collections are the same list. -/
theorem eq_of_before {list other : List Collection} (first : list.Pairwise Before)
    (second : other.Pairwise Before) (same : ∀ c, c ∈ list ↔ c ∈ other) : list = other := by
  have distinct {list : List Collection} (ordered : list.Pairwise Before) : list.Nodup := by
    refine ordered.imp ?_
    rintro a b before rfl
    exact not_before_self a before
  have permuted := (List.perm_ext_iff_of_nodup (distinct first) (distinct second)).2 same
  exact permuted.eq_of_pairwise (fun a b _ _ one two => (one.asymm two).elim) first second

end Collection

namespace Command.Pack

open Collection (read? read?_eq_some_iff inventory kept describes? AllLegible Legible)

variable {t : Tree} {args : PackArgs} {place : Location} {db name : String} {node : Node}

theorem readMetadata_eq {directory collection metadata : String}
    (leads : t.Leads directory (place ++ [db])) (named : IsName (collection ++ ".metadata.json"))
    (short : (Path.join directory (collection ++ ".metadata.json")).utf8ByteSize < 4096)
    (described : describes? (t.lookup (place ++ [db] ++ [collection ++ ".metadata.json"])) =
      some metadata) :
    readMetadata t (Path.join directory (collection ++ ".metadata.json")) = .ok metadata := by
  have finds := leads.find named short
  cases found : t.lookup (place ++ [db] ++ [collection ++ ".metadata.json"]) with
  | none =>
    rw [found] at finds described
    obtain rfl := Option.some.inj described
    simp [readMetadata, Tree.content, finds]
  | some node =>
    rw [found] at finds described
    cases node with
    | directory => simp [describes?] at described
    | file content =>
      obtain ⟨text, read, accepted⟩ := Option.bind_eq_some_iff.1 described
      obtain ⟨accepts, same⟩ := Option.ite_none_right_eq_some.1 accepted
      obtain rfl := Option.some.inj same
      simp [readMetadata, Tree.content, finds, read, accepts]

theorem examine_eq (leads : t.Leads (Path.join args.directory db) (place ++ [db]))
    (legible : AllLegible t args place) (found : t.lookup (place ++ [db] ++ [name]) = some node)
    (named : IsName name) :
    examine t args db name =
      .ok (((read? t place db name).filter (kept args)).map (Collection.found args.directory)) := by
  cases known : collection? name with
  | none => simp [examine, read?, known]
  | some collection =>
    cases node with
    | directory =>
      have other : ∀ content, t.find (Path.join (Path.join args.directory db) name) ≠
          .ok (.file content) := by
        intro content finds
        cases found.symm.trans (leads.of_find named finds).1
      have passed : read? t place db name = none := by simp only [read?, known, found]
      rw [passed]
      simp only [examine, known]
      split
      · next finds => exact absurd finds (other _)
      · rfl
    | file data =>
      by_cases excluded : isExcluded args collection = true
      · have passed : (read? t place db name).filter (kept args) = none := by
          rw [Option.filter_eq_none_iff]
          intro c read
          obtain ⟨-, rfl, something, -⟩ := read?_eq_some_iff.1 read
          have same : collection? c.file = some c.ns.collection :=
            collection?_eq_some_iff.2 ⟨something, rfl⟩
          obtain rfl := Option.some.inj (known.symm.trans same)
          simp [kept, excluded]
        rw [passed]
        simp only [examine, known]
        split
        · next same _ =>
          obtain rfl := Option.some.inj same
          rw [if_pos excluded]
          rfl
        · rfl
      · obtain ⟨something, rfl⟩ := collection?_eq_some_iff.1 known
        have legible := legible db collection data found something
          (Collection.isExcluded_eq_false_iff.1 (by simpa using excluded))
        obtain ⟨metadata, describes⟩ := legible.described
        have described := Collection.describes?_eq_some_iff.2 describes
        have finds := leads.find named legible.short_file
        rw [found] at finds
        have reads := readMetadata_eq leads legible.isName_description legible.short described
        have read : read? t place db (collection ++ ".bson") =
            some ⟨⟨db, collection⟩, data, metadata⟩ :=
          read?_eq_some_iff.2 ⟨rfl, rfl, something, found, described⟩
        have keeps : kept args ⟨⟨db, collection⟩, data, metadata⟩ = true := by
          simpa [kept] using excluded
        rw [read, Option.filter_some_pos keeps]
        simp only [examine, known, finds, excluded, reads, legible.data_eq]
        rfl

theorem examineAll_eq (leads : t.Leads (Path.join args.directory db) (place ++ [db]))
    (legible : AllLegible t args place) {names : List String}
    (listed : ∀ name ∈ names,
      IsName name ∧ ∃ node, t.lookup (place ++ [db] ++ [name]) = some node) :
    examineAll t args db names =
      .ok (((names.filterMap (read? t place db)).filter (kept args)).map
        (Collection.found args.directory)) := by
  induction names with
  | nil => rfl
  | cons name rest ih =>
    obtain ⟨⟨named, node, found⟩, others⟩ := List.forall_mem_cons.1 listed
    rw [examineAll, examine_eq leads legible found named, ih others, List.filterMap_cons]
    cases read : read? t place db name with
    | none => rfl
    | some c => by_cases keeps : kept args c = true <;> simp [keeps, Option.filter]

/-- A database with a collection that is looked at is a directory that a path leads to. -/
theorem isDirectory_of_kept (sound : t.Sound) (leads : t.Leads args.directory place)
    (legible : AllLegible t args place) {c : Collection} (read : read? t place db name = some c)
    (keeps : kept args c = true) : t.isDirectory (Path.join args.directory db) = true := by
  obtain ⟨rfl, rfl, something, found, -⟩ := read?_eq_some_iff.1 read
  have above := sound.above found
  have legible := legible c.ns.db c.ns.collection c.data found something
    (Collection.isExcluded_eq_false_iff.1 (by simpa [kept] using keeps))
  have finds := leads.find (sound.isName above) legible.short_database
  rw [above] at finds
  simp [Tree.isDirectory, finds]

theorem examineDatabases_eq (sound : t.Sound) (leads : t.Leads args.directory place)
    (legible : AllLegible t args place) {databases : List String}
    (listed : ∀ db ∈ databases, IsName db) :
    examineDatabases t args databases =
      .ok (((databases.flatMap fun db =>
          (t.names (place ++ [db])).filterMap (read? t place db)).filter (kept args)).map
        (Collection.found args.directory)) := by
  induction databases with
  | nil => rfl
  | cons db rest ih =>
    obtain ⟨named, others⟩ := List.forall_mem_cons.1 listed
    rw [List.flatMap_cons, List.filter_append, List.map_append, examineDatabases, ih others]
    by_cases directory : t.isDirectory (Path.join args.directory db) = true
    · have inside := leads.of_isDirectory named directory
      have entries : ∀ name ∈ t.names (place ++ [db]),
          IsName name ∧ ∃ node, t.lookup (place ++ [db] ++ [name]) = some node := by
        intro name member
        obtain ⟨node, found⟩ := sound.mem_names.1 member
        exact ⟨sound.isName found, node, found⟩
      simp only [directory, if_true, listDirectory, inside.list,
        examineAll_eq inside legible entries]
    · have nothing : ((t.names (place ++ [db])).filterMap (read? t place db)).filter (kept args) =
          [] := by
        rw [List.filter_eq_nil_iff]
        intro c member keeps
        obtain ⟨name, -, read⟩ := List.mem_filterMap.1 member
        exact directory (isDirectory_of_kept sound leads legible read keeps)
      simp [directory, nothing]

/-- What is collected are the collections that are not excluded. -/
theorem collect_eq (sound : t.Sound) (leads : t.Leads args.directory place)
    (legible : AllLegible t args place) :
    collect t args =
      .ok (((inventory t place).filter (kept args)).map (Collection.found args.directory)) := by
  have named : ∀ db ∈ t.names place, IsName db := by
    intro db member
    obtain ⟨node, found⟩ := sound.mem_names.1 member
    exact sound.isName found
  simp only [collect, listDirectory, leads.list, examineDatabases_eq sound leads legible named]
  rfl

end Command.Pack
end DumpArchive
