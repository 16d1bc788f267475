import DumpArchive.Command.Pack
import Mathlib.Data.List.Basic
import Mathlib.Data.String.Basic

/-! Paths that are put together from a directory and a name: one step more, and no other way to
read them. -/
namespace DumpArchive.Path

variable {directory name : String}

/-- A name that leads one step down, if it is not too long. -/
structure IsStep (name : String) : Prop where
  something : name ≠ ""
  here : name ≠ "."
  up : name ≠ ".."
  solid : '/' ∉ name.toList

/-- A name without anything that some system might read as more than a name. -/
structure Plain (name : String) : Prop extends IsStep name where
  straight : '\\' ∉ name.toList
  ended : Char.ofNat 0 ∉ name.toList

/-- A name that an entry of a directory can have. -/
structure IsName (name : String) : Prop where
  something : name ≠ ""
  here : name ≠ "."
  up : name ≠ ".."
  solid : '/' ∉ name.toList
  ended : Char.ofNat 0 ∉ name.toList
  short : name.utf8ByteSize ≤ 255

/-- The directory for the collections of a database. -/
def database (root : String) (ns : Namespace) : String := join root ns.db

/-- The file for the description of a namespace. -/
def metadata (root : String) (ns : Namespace) : String :=
  join (database root ns) (ns.collection ++ ".metadata.json")

theorem IsName.isStep (named : IsName name) : IsStep name :=
  ⟨named.something, named.here, named.up, named.solid⟩

theorem segments_ne_nil (s : List Char) : segments s ≠ [] := by
  cases s with
  | nil => simp [segments]
  | cons c rest =>
    rw [segments]
    split
    · simp
    · split <;> simp

theorem segments_append (a b : List Char) :
    segments (a ++ '/' :: b) = segments a ++ segments b := by
  induction a with
  | nil => simp [segments]
  | cons c rest ih =>
    rw [List.cons_append, segments, segments, ih]
    split
    · rfl
    · cases pieces : segments rest with
      | nil => exact absurd pieces (segments_ne_nil rest)
      | cons s more => rfl

theorem segments_of_solid {s : List Char} (solid : '/' ∉ s) : segments s = [s] := by
  induction s with
  | nil => rfl
  | cons c rest ih =>
    obtain ⟨apart, solid⟩ := not_or.1 (mt List.mem_cons.2 solid)
    rw [segments, if_neg (Ne.symm apart), ih solid]

theorem toList_ne_nil (something : name ≠ "") : name.toList ≠ [] := by
  simpa using something

theorem relative_of_solid (solid : '/' ∉ name.toList) : isAbsolute name = false := by
  simp only [isAbsolute, decide_eq_false_iff_not]
  exact fun first => solid (List.mem_of_head? first)

/-- Such a name does not begin at the root. -/
theorem IsStep.relative (step : IsStep name) : isAbsolute name = false :=
  relative_of_solid step.solid

/-- A name without a slash is all of its pieces. -/
theorem isSoleName_components (solid : '/' ∉ name.toList) (something : name ≠ "") :
    isSoleName (components name) = decide (name ≠ "." ∧ name ≠ "..") := by
  have dot : name.toList = ['.'] ↔ name = "." :=
    ⟨fun same => String.toList_injective same, congrArg String.toList⟩
  have dots : name.toList = ['.', '.'] ↔ name = ".." :=
    ⟨fun same => String.toList_injective same, congrArg String.toList⟩
  simp only [components, segments_of_solid solid, relative_of_solid solid]
  by_cases here : name = "."
  · subst here
    decide
  · by_cases up : name = ".."
    · subst up
      decide
    · simp [isSoleName, toList_ne_nil something, dot, dots, here, up]

theorem isPlain_iff : isPlain name = true ↔ Plain name := by
  simp only [isPlain, Bool.and_eq_true, decide_eq_true_eq, List.all_eq_true]
  constructor
  · rintro ⟨⟨something, all⟩, one⟩
    have solid : '/' ∉ name.toList := fun member => (all _ member).1.1 rfl
    have apart := (isSoleName_components solid something).symm.trans one
    obtain ⟨here, up⟩ := of_decide_eq_true apart
    exact ⟨⟨something, here, up, solid⟩, fun member => (all _ member).1.2 rfl,
      fun member => (all _ member).2 rfl⟩
  · rintro ⟨⟨something, here, up, solid⟩, straight, ended⟩
    refine ⟨⟨something, fun c member => ⟨⟨?_, ?_⟩, ?_⟩⟩, ?_⟩
    · rintro rfl
      exact solid member
    · rintro rfl
      exact straight member
    · rintro rfl
      exact ended member
    · exact (isSoleName_components solid something).trans (decide_eq_true ⟨here, up⟩)

/-- The three ways to join a name that is not absolute: with a slash between, after a slash, and with
nothing before. -/
theorem join_cases (directory : String) (relative : isAbsolute name = false) :
    (directory = "" ∧ join directory name = name) ∨
    (∃ front, directory.toList = front ++ ['/'] ∧
      (join directory name).toList = front ++ '/' :: name.toList) ∨
    (directory ≠ "" ∧ (join directory name).toList = directory.toList ++ '/' :: name.toList) := by
  by_cases nothing : directory = ""
  · refine .inl ⟨nothing, ?_⟩
    subst nothing
    simp [join]
  · cases slashed : endsInSlash directory with
    | true =>
      have last : directory.toList.getLast? = some '/' := by simpa [endsInSlash] using slashed
      obtain ⟨front, split⟩ := List.getLast?_eq_some_iff.1 last
      exact .inr (.inl ⟨front, split, by simp [join, relative, slashed, split]⟩)
    | false => exact .inr (.inr ⟨nothing, by simp [join, relative, slashed, nothing]⟩)

theorem steps_join (step : IsStep name) :
    steps (join directory name) = steps directory ++ [name] := by
  have own : (segments name.toList).filter (· ≠ []) = [name.toList] := by
    rw [segments_of_solid step.solid]
    simp [step.something]
  rcases join_cases directory step.relative with ⟨rfl, joined⟩ | ⟨front, split, joined⟩ | ⟨-, joined⟩
  · simp only [steps, joined, own]
    simp [segments]
  · simp only [steps, joined, split, segments_append, List.filter_append, own]
    simp [segments]
  · simp only [steps, joined, segments_append, List.filter_append, own]
    simp

theorem isAbsolute_join (step : IsStep name) :
    isAbsolute (join directory name) = isAbsolute directory := by
  rcases join_cases directory step.relative with ⟨rfl, joined⟩ | ⟨front, split, joined⟩ | ⟨something, joined⟩
  · rw [joined]
    cases first : name.toList with
    | nil => exact absurd first (toList_ne_nil step.something)
    | cons c rest =>
      have apart : c ≠ '/' := by
        rintro rfl
        exact step.solid (first ▸ List.mem_cons_self ..)
      simp [isAbsolute, first, apart]
  · cases front <;> simp [isAbsolute, joined, split]
  · cases first : directory.toList with
    | nil => exact absurd first (toList_ne_nil something)
    | cons c rest => simp [isAbsolute, joined, first]

theorem endsInSlash_join (step : IsStep name) : endsInSlash (join directory name) = false := by
  cases last : name.toList.getLast? with
  | none => exact absurd (List.getLast?_eq_none_iff.1 last) (toList_ne_nil step.something)
  | some c =>
    have apart : c ≠ '/' := by
      rintro rfl
      exact step.solid (List.mem_of_getLast? last)
    rcases join_cases directory step.relative with ⟨-, joined⟩ | ⟨front, -, joined⟩ | ⟨-, joined⟩
    · simp [endsInSlash, joined, last, apart]
    · simp [endsInSlash, joined, List.getLast?_append, List.getLast?_cons, last, apart]
    · simp [endsInSlash, joined, List.getLast?_append, List.getLast?_cons, last, apart]

theorem join_ne_empty (something : name ≠ "") : join directory name ≠ "" := by
  unfold join
  split_ifs <;> simp [something]

theorem not_mem_join {c : Char} (first : c ∉ directory.toList) (second : c ∉ name.toList)
    (apart : c ≠ '/') : c ∉ (join directory name).toList := by
  unfold join
  split_ifs <;> simp [first, second, apart]

theorem IsStep.join_eq (step : IsStep name) : join directory name =
    if directory = "" || endsInSlash directory then directory ++ name
    else directory ++ "/" ++ name := by
  simp only [join, step.relative, Bool.false_eq_true, if_false]

/-- A path is no shorter than what is joined to its front. -/
theorem size_le_join (directory : String) (step : IsStep name) :
    directory.utf8ByteSize ≤ (join directory name).utf8ByteSize := by
  rw [step.join_eq]
  split <;> simp only [String.utf8ByteSize_append] <;> omega

theorem size_join_mono {other : String} (step : IsStep name) (also : IsStep other)
    (le : name.utf8ByteSize ≤ other.utf8ByteSize) :
    (join directory name).utf8ByteSize ≤ (join directory other).utf8ByteSize := by
  rw [step.join_eq, also.join_eq]
  split <;> simp only [String.utf8ByteSize_append] <;> omega

/-- A plain name with something behind it that makes it no dots. -/
theorem isStep_append {ending : String} (plain : Plain name) (long : 2 < ending.length)
    (solid : '/' ∉ ending.toList) : IsStep (name ++ ending) := by
  have most : 2 < (name ++ ending).length := by
    rw [String.length_append]
    omega
  have apart {other : String} (few : other.length ≤ 2) : name ++ ending ≠ other := by
    rintro rfl
    exact absurd most (by omega)
  refine ⟨apart (by decide), apart (by decide), apart (by decide), ?_⟩
  rw [String.toList_append, List.mem_append, not_or]
  exact ⟨plain.solid, solid⟩

theorem isName_append {ending : String} (plain : isPlain name = true) (long : 2 < ending.length)
    (solid : '/' ∉ ending.toList) (ended : Char.ofNat 0 ∉ ending.toList)
    (short : (name ++ ending).utf8ByteSize ≤ 255) : IsName (name ++ ending) := by
  have plain := isPlain_iff.1 plain
  obtain ⟨something, here, up, solid⟩ := isStep_append plain long solid
  refine ⟨something, here, up, solid, ?_, short⟩
  rw [String.toList_append, List.mem_append, not_or]
  exact ⟨plain.ended, ended⟩

/-- A path is what its pieces make. -/
theorem ofPieces_segments (path : String) : ofPieces (segments path.toList) = path := by
  suffices again : ∀ s : List Char, ['/'].intercalate (segments s) = s by
    rw [ofPieces, again, String.ofList_toList]
  intro s
  induction s with
  | nil => rfl
  | cons c rest ih =>
    rw [segments]
    cases pieces : segments rest with
    | nil => exact absurd pieces (segments_ne_nil rest)
    | cons piece more =>
      rw [pieces] at ih
      split
      · next slash => simp [slash, List.intercalate_cons_cons, ih]
      · cases more <;> simp_all [List.intercalate_cons_cons]

theorem trimPieces_concat (step : IsStep name) (front : List (List Char)) :
    trimPieces (front ++ [name.toList]) = front ++ [name.toList] := by
  have dot : name.toList ≠ ['.'] := fun same => step.here (String.toList_injective same)
  simp [trimPieces, toList_ne_nil step.something, dot]

/-- The last piece of a path that a step ends. -/
theorem exists_segments_join (step : IsStep name) (directory : String) :
    ∃ front, segments (join directory name).toList = front ++ [name.toList] := by
  rcases join_cases directory step.relative with ⟨-, joined⟩ | ⟨front, -, joined⟩ | ⟨-, joined⟩
  · exact ⟨[], by rw [joined, segments_of_solid step.solid, List.nil_append]⟩
  · exact ⟨_, by rw [joined, segments_append, segments_of_solid step.solid]⟩
  · exact ⟨_, by rw [joined, segments_append, segments_of_solid step.solid]⟩

/-- A second step. -/
theorem segments_join_join {first : String} (step : IsStep first) (also : IsStep name) :
    segments (join (join directory first) name).toList =
      segments (join directory first).toList ++ [name.toList] := by
  rw [also.join_eq, endsInSlash_join step]
  simp [join_ne_empty step.something, segments_append, segments_of_solid also.solid]

/-- The last step taken back. -/
theorem parent?_join_join {first : String} (step : IsStep first) (also : IsStep name) :
    parent? (join (join directory first) name) = some (join directory first) := by
  obtain ⟨front, pieces⟩ := exists_segments_join step directory
  have made : ofPieces (front ++ [first.toList]) = join directory first := by
    rw [← pieces, ofPieces_segments]
  simp only [parent?, segments_join_join step also, trimPieces_concat also, List.dropLast_concat,
    pieces, trimPieces_concat step, made]
  simp

theorem stem_append {ending : String} (something : name ≠ "") (solid : '.' ∉ ending.toList) :
    stem (name ++ "." ++ ending).toList = name.toList := by
  have passed : ∀ c ∈ ending.toList.reverse, decide (c ≠ '.') = true := by
    intro c member
    simp only [decide_eq_true_eq]
    rintro rfl
    exact solid (List.mem_reverse.1 member)
  have last : (name ++ "." ++ ending).toList.reverse.dropWhile (· ≠ '.') =
      '.' :: name.toList.reverse := by
    rw [String.toList_append, List.reverse_append, List.dropWhile_append_of_pos passed]
    simp
  cases own : name.toList.reverse with
  | nil => exact absurd (List.reverse_eq_nil_iff.1 own) (toList_ne_nil something)
  | cons c front =>
    rw [stem, last, own]
    exact (congrArg List.reverse own).symm.trans (List.reverse_reverse _)

/-- Another extension changes the last name only. -/
theorem withExtension_join_join {first ending : String} (other : String) (step : IsStep first)
    (something : name ≠ "") (solid : '.' ∉ ending.toList) (also : IsStep (name ++ "." ++ ending))
    (instead : IsStep (name ++ "." ++ other)) :
    withExtension (join (join directory first) (name ++ "." ++ ending)) other =
      join (join directory first) (name ++ "." ++ other) := by
  have up : (name ++ "." ++ ending).toList ≠ ['.', '.'] :=
    fun same => also.up (String.toList_injective same)
  have joined : ofPieces (segments (join directory first).toList ++ [(name ++ "." ++ other).toList]) =
      join (join directory first) (name ++ "." ++ other) := by
    rw [← segments_join_join step instead, ofPieces_segments]
  rw [withExtension, segments_join_join step also, trimPieces_concat also, List.reverse_concat]
  simp only [if_neg up, stem_append something solid, ← joined]
  simp

/-- The two files of a collection have endings that differ four places from the end. -/
theorem file_ne_description (first second : String) :
    first ++ ".bson" ≠ second ++ ".metadata.json" := by
  intro same
  have fourth := congrArg (fun s => s.toList.reverse[3]?) same
  simp at fourth

end DumpArchive.Path

namespace DumpArchive

open DumpArchive.Path (IsName IsStep)

/-- Both of its names are plain. -/
structure Namespace.Plain (ns : Namespace) : Prop where
  db : Path.Plain ns.db
  collection : Path.Plain ns.collection

namespace Namespace.Plain

variable {ns other : Namespace} {root : String}

theorem isStep_file (plain : ns.Plain) : IsStep (ns.collection ++ ".bson") :=
  Path.isStep_append plain.collection (by decide) (by decide)

theorem isStep_description (plain : ns.Plain) : IsStep (ns.collection ++ ".metadata.json") :=
  Path.isStep_append plain.collection (by decide) (by decide)

theorem steps_database (plain : ns.Plain) :
    Path.steps (Path.database root ns) = Path.steps root ++ [ns.db] :=
  Path.steps_join plain.db.toIsStep

theorem steps_file (plain : ns.Plain) :
    Path.steps (Path.join (Path.database root ns) (ns.collection ++ ".bson")) =
      Path.steps root ++ [ns.db, ns.collection ++ ".bson"] := by
  rw [Path.steps_join plain.isStep_file, plain.steps_database, List.append_assoc]
  rfl

theorem steps_description (plain : ns.Plain) :
    Path.steps (Path.metadata root ns) =
      Path.steps root ++ [ns.db, ns.collection ++ ".metadata.json"] := by
  rw [Path.metadata, Path.steps_join plain.isStep_description, plain.steps_database,
    List.append_assoc]
  rfl

theorem parent?_file (plain : ns.Plain) :
    Path.parent? (Path.join (Path.database root ns) (ns.collection ++ ".bson")) =
      some (Path.database root ns) :=
  Path.parent?_join_join plain.db.toIsStep plain.isStep_file

theorem parent?_metadata (plain : ns.Plain) :
    Path.parent? (Path.metadata root ns) = some (Path.database root ns) :=
  Path.parent?_join_join plain.db.toIsStep plain.isStep_description

/-- The description lies beside the records. -/
theorem withExtension_file (plain : ns.Plain) :
    Path.withExtension (Path.join (Path.database root ns) (ns.collection ++ ".bson"))
      "metadata.json" = Path.metadata root ns := by
  have file : ns.collection ++ ".bson" = ns.collection ++ "." ++ "bson" := by
    rw [String.append_assoc]
    rfl
  have description : ns.collection ++ ".metadata.json" =
      ns.collection ++ "." ++ "metadata.json" := by
    rw [String.append_assoc]
    rfl
  rw [Path.metadata, description, file]
  exact Path.withExtension_join_join _ plain.db.toIsStep plain.collection.something (by decide)
    (file ▸ plain.isStep_file) (description ▸ plain.isStep_description)

end Namespace.Plain

namespace Path

variable {ns : Namespace} {root path : String}

theorem isPlainNamespace_iff : isPlainNamespace ns = true ↔ ns.Plain := by
  rw [isPlainNamespace, Bool.and_eq_true, isPlain_iff, isPlain_iff]
  exact ⟨fun ⟨db, collection⟩ => ⟨db, collection⟩, fun plain => ⟨plain.db, plain.collection⟩⟩

theorem data_eq_ok_iff : data root ns = .ok path ↔
    ns.Plain ∧ path = join (database root ns) (ns.collection ++ ".bson") := by
  rw [data, ← isPlainNamespace_iff]
  split
  · next plain => simp [plain, database, eq_comm]
  · next wild => simp [wild]

/-- The files of two namespaces are four files. -/
theorem nodup_files {a b : Namespace} {first second : String} (apart : a ≠ b)
    (one : data root a = .ok first) (two : data root b = .ok second) :
    ([first, metadata root a, second, metadata root b].map steps).Nodup := by
  obtain ⟨plain, rfl⟩ := data_eq_ok_iff.1 one
  obtain ⟨also, rfl⟩ := data_eq_ok_iff.1 two
  have split : a.db = b.db → a.collection ≠ b.collection := by
    intro db collection
    obtain ⟨_, _⟩ := a
    obtain ⟨_, _⟩ := b
    exact apart (by simp_all)
  simpa [plain.steps_file, plain.steps_description, also.steps_file, also.steps_description,
    file_ne_description, (file_ne_description _ _).symm] using split

end Path

/-- The names of its files are plain names, and no path to one of them is too long. -/
structure Namespace.Reachable (ns : Namespace) (root : String) : Prop where
  plain : Path.isPlainNamespace ns = true
  named : (ns.collection ++ ".metadata.json").utf8ByteSize ≤ 255
  short : (Path.metadata root ns).utf8ByteSize < 4096

namespace Namespace.Reachable

variable {ns : Namespace} {root : String}

theorem isPlain (reachable : ns.Reachable root) :
    Path.isPlain ns.db = true ∧ Path.isPlain ns.collection = true := by
  have both := reachable.plain
  rwa [Path.isPlainNamespace, Bool.and_eq_true] at both

theorem isNamed (reachable : ns.Reachable root) : ns.isNamed := by
  obtain ⟨db, collection⟩ := reachable.isPlain
  simp [Namespace.isNamed, (Path.isPlain_iff.1 db).something,
    (Path.isPlain_iff.1 collection).something]

/-- The file of the records has the shorter name. -/
theorem size_file_le (collection : String) :
    (collection ++ ".bson").utf8ByteSize ≤ (collection ++ ".metadata.json").utf8ByteSize := by
  simp only [String.utf8ByteSize_append]
  exact Nat.add_le_add_left (by decide) _

theorem isName_description (reachable : ns.Reachable root) :
    IsName (ns.collection ++ ".metadata.json") :=
  Path.isName_append reachable.isPlain.2 (by decide) (by decide) (by decide) reachable.named

theorem isName_file (reachable : ns.Reachable root) : IsName (ns.collection ++ ".bson") :=
  Path.isName_append reachable.isPlain.2 (by decide) (by decide) (by decide)
    ((size_file_le _).trans reachable.named)

theorem short_file (reachable : ns.Reachable root) :
    (Path.join (Path.database root ns) (ns.collection ++ ".bson")).utf8ByteSize < 4096 :=
  (Path.size_join_mono reachable.isName_file.isStep reachable.isName_description.isStep
    (size_file_le _)).trans_lt reachable.short

theorem short_database (reachable : ns.Reachable root) :
    (Path.database root ns).utf8ByteSize < 4096 :=
  (Path.size_le_join _ reachable.isName_description.isStep).trans_lt reachable.short

theorem data_eq (reachable : ns.Reachable root) :
    Path.data root ns = .ok (Path.join (Path.database root ns) (ns.collection ++ ".bson")) :=
  if_pos reachable.plain

end Namespace.Reachable
end DumpArchive

namespace DumpArchive.Command.Pack

theorem collection?_eq_some_iff {name collection : String} :
    collection? name = some collection ↔ collection ≠ "" ∧ name = collection ++ ".bson" := by
  unfold collection?
  constructor
  · intro found
    simp only [Option.ite_none_right_eq_some, Option.some.injEq] at found
    obtain ⟨⟨something, split⟩, rfl⟩ := found
    refine ⟨fun nothing => something ?_, String.toList_injective ?_⟩
    · simpa using congrArg String.toList nothing
    · simpa using split
  · rintro ⟨something, rfl⟩
    have stem : (collection ++ ".bson").toList.take ((collection ++ ".bson").length - 5) =
        collection.toList := by
      have five : ".bson".length = 5 := rfl
      rw [String.length_append, five, Nat.add_sub_cancel, String.toList_append,
        ← String.length_toList, List.take_left]
    simp only [stem]
    rw [if_pos ⟨Path.toList_ne_nil something, by simp⟩]
    simp

end DumpArchive.Command.Pack
