import DumpArchive.Command.Unpack
import DumpArchive.Proofs.Groups
import DumpArchive.Proofs.Openings
import DumpArchive.Proofs.Operations

/-! What unpacking can touch. The names come from an archive that need not be trusted, or from the
arguments: only plain ones lead anywhere, and then to the files of their own namespaces. -/
namespace DumpArchive.Command.Unpack

open DumpArchive.Tree (Operation Puts Performed Confined attemptAll)

variable {s : Setting} {args : UnpackArgs} {a : Restore.Archive} {out : String} {c : Catalog}
  {entries : List CatalogEntry} {list wanted : List Namespace} {t : Tree}

/-- The file of a namespace below a directory. -/
def fileOf (out : String) (ns : Namespace) : Selected :=
  ⟨ns, Path.join (Path.database out ns) (ns.collection ++ ".bson")⟩

theorem select_of_plain (refuse : EngineError → Failure) (plain : ∀ ns ∈ list, ns.Plain) :
    select refuse out list = .ok (list.map (fileOf out)) := by
  induction list with
  | nil => rfl
  | cons ns rest ih =>
    obtain ⟨here, others⟩ := List.forall_mem_cons.1 plain
    simp only [select, Path.data_eq_ok_iff.2 ⟨here, rfl⟩, ih others]
    rfl

/-- One name that is not plain is enough to be refused. -/
theorem select_of_wild (refuse : EngineError → Failure) (wild : ∃ ns ∈ list, ¬ ns.Plain) :
    ∃ ns : Namespace, select refuse out list = .error (refuse (.invalid ns.shown)) := by
  induction list with
  | nil => simp at wild
  | cons ns rest ih =>
    by_cases here : ns.Plain
    · have later : ∃ ns ∈ rest, ¬ ns.Plain := by simpa [here] using wild
      obtain ⟨other, refused⟩ := ih later
      exact ⟨other, by simp only [select, Path.data_eq_ok_iff.2 ⟨here, rfl⟩, refused]⟩
    · have refused : Path.data out ns = .error (.invalid ns.shown) :=
        if_neg fun plain => here (Path.isPlainNamespace_iff.1 plain)
      exact ⟨ns, by simp only [select, refused]⟩

/-- The description of an entry is written into the directory of its database. -/
def describing (out : String) (e : CatalogEntry) : List Operation :=
  [.makeDirectories (Path.database out e.ns),
    .writeFile (Path.metadata out e.ns) (Bytes.ofText e.metadata)]

/-- An empty file is created for its records. -/
def creating (out : String) (e : CatalogEntry) : List Operation :=
  [.makeDirectories (Path.database out e.ns), .writeFile (fileOf out e.ns).path []]

/-- Of some namespaces, those are described that the catalog has. -/
def describingAll (out : String) (c : Catalog) (wanted : List Namespace) : List Operation :=
  wanted.flatMap fun ns => (c.entryFor? ns).elim [] (describing out)

/-- How operations have ended, as a command reports it. -/
def reported (context : String) (result : Except Tree.Fault Unit) : Except Failure Unit :=
  result.mapError fun fault => .ofIoError context fault.error

theorem reported_eq_ok_iff {context : String} {result : Except Tree.Fault Unit} :
    reported context result = .ok () ↔ result = .ok () := by
  cases result <;> simp [reported, Except.mapError]

theorem makeRoom_file {ns : Namespace} (plain : ns.Plain) (t : Tree) :
    makeRoom (fileOf out ns).path t = t.makeDirectories (Path.database out ns) := by
  rw [makeRoom, fileOf, plain.parent?_file]

theorem makeRoom_metadata {ns : Namespace} (plain : ns.Plain) (t : Tree) :
    makeRoom (Path.metadata out ns) t = t.makeDirectories (Path.database out ns) := by
  rw [makeRoom, plain.parent?_metadata]

theorem describe_attempts {e : CatalogEntry} (plain : e.ns.Plain) (out : String) (t : Tree) :
    ∃ context, describe (fileOf out e.ns) e.metadata t =
      (reported context (attemptAll (describing out e) t).1,
        (attemptAll (describing out e) t).2) := by
  have beside : Path.withExtension (fileOf out e.ns).path "metadata.json" =
      Path.metadata out e.ns := plain.withExtension_file
  simp only [describe, beside, makeRoom_metadata plain, describing, attemptAll, Operation.attempt]
  rcases t.makeDirectories (Path.database out e.ns) with ⟨fault | _, u⟩
  · exact ⟨_, rfl⟩
  · dsimp only
    rcases u.writeFile (Path.metadata out e.ns) (Bytes.ofText e.metadata) with ⟨fault | _, v⟩
    · exact ⟨_, rfl⟩
    · exact ⟨"", rfl⟩

theorem describeAll_attempts (plain : ∀ ns ∈ wanted, ns.Plain) (out : String) (c : Catalog)
    (t : Tree) :
    ∃ context, describeAll c (wanted.map (fileOf out)) t =
      (reported context (attemptAll (describingAll out c wanted) t).1,
        (attemptAll (describingAll out c wanted) t).2) := by
  induction wanted generalizing t with
  | nil => exact ⟨"", rfl⟩
  | cons ns rest ih =>
    obtain ⟨here, others⟩ := List.forall_mem_cons.1 plain
    have parts : describingAll out c (ns :: rest) =
        (c.entryFor? (fileOf out ns).ns).elim [] (describing out) ++ describingAll out c rest := rfl
    rw [List.map_cons, describeAll, parts, Tree.attemptAll_append]
    cases found : c.entryFor? (fileOf out ns).ns with
    | none => exact ih others t
    | some e =>
      obtain rfl : e.ns = ns := (Catalog.entryFor?_eq_some_iff.1 found).2
      obtain ⟨context, first⟩ := describe_attempts here out t
      simp only [first, Option.elim_some]
      rcases attemptAll (describing out e) t with ⟨fault | _, u⟩
      · exact ⟨context, rfl⟩
      · exact ih others u

/-- What refuses a destination is the first operation that fails. -/
theorem create_attempts {e : CatalogEntry} (plain : e.ns.Plain) (out : String) (t : Tree) :
    create (fileOf out e.ns) t =
      (⟨e.ns, match (attemptAll (creating out e) t).1 with
        | .error fault => .refuses fault.error
        | .ok () => .opens .empty⟩, (attemptAll (creating out e) t).2) := by
  simp only [create, makeRoom_file plain, creating, attemptAll, Operation.attempt]
  rcases made : t.makeDirectories (Path.database out e.ns) with ⟨fault | _, u⟩
  · simp only [fileOf]
  · rcases wrote : u.writeFile (fileOf out e.ns).path [] with ⟨fault | _, v⟩
    · simp only [fileOf] at wrote ⊢
      simp only [wrote]
    · simp only [fileOf] at wrote ⊢
      simp only [wrote]

/-- What a request asks of a catalog. -/
def chosen (args : UnpackArgs) (c : Catalog) : List Namespace :=
  if args.namespaces = [] then c.namespaces else args.namespaces

/-- The namespaces that are selected once the archive is open. -/
def requested (args : UnpackArgs) (s : Setting) : List Namespace :=
  match openArchive s args.archive with
  | .error _ => []
  | .ok a => chosen args a.catalog

theorem selection_of_plain (plain : ∀ ns ∈ chosen args c, ns.Plain) :
    selection args c = .ok ((chosen args c).map (fileOf args.out)) := by
  unfold selection
  unfold chosen at plain ⊢
  split <;> simp_all [select_of_plain]

/-- A bad name in the catalog is bad data, and one among the arguments is misuse. -/
theorem selection_of_wild (wild : ∃ ns ∈ chosen args c, ¬ ns.Plain) :
    ∃ failure, selection args c = .error failure ∧
      failure.code = if args.namespaces = [] then .dataInvalid else .usage := by
  unfold selection
  unfold chosen at wild
  by_cases all : args.namespaces = []
  · rw [if_pos all] at wild ⊢
    obtain ⟨ns, refused⟩ := select_of_wild _ wild
    exact ⟨_, refused, (if_pos all).symm⟩
  · rw [if_neg all] at wild ⊢
    obtain ⟨ns, refused⟩ := select_of_wild _ wild
    exact ⟨_, refused, (if_neg all).symm⟩

/-- What comes to stand below the output directory for some namespaces. -/
inductive Share (list : List Namespace) : Location → Node → Prop
  | database {ns : Namespace} : ns ∈ list → ns.Plain → Share list [ns.db] .directory
  | records {ns : Namespace} {content : Bytes} : ns ∈ list → ns.Plain →
    Share list [ns.db, ns.collection ++ ".bson"] (.file content)
  | description {ns : Namespace} {content : Bytes} : ns ∈ list → ns.Plain →
    Share list [ns.db, ns.collection ++ ".metadata.json"] (.file content)

/-- What comes to stand there for the descriptions of some entries. -/
inductive Described (entries : List CatalogEntry) : Location → Node → Prop
  | database {e : CatalogEntry} : e ∈ entries → e.ns.Plain → Described entries [e.ns.db] .directory
  | description {e : CatalogEntry} : e ∈ entries → e.ns.Plain →
    Described entries [e.ns.db, e.ns.collection ++ ".metadata.json"]
      (.file (Bytes.ofText e.metadata))

theorem describingAll_described (plain : ∀ ns ∈ wanted, ns.Plain)
    (known : ∀ ns ∈ wanted, ∀ e, c.entryFor? ns = some e → e ∈ entries) :
    ∀ o ∈ describingAll out c wanted, ∃ below node,
      Described entries below node ∧ Puts out below node o := by
  intro o member
  obtain ⟨ns, listed, member⟩ := List.mem_flatMap.1 member
  cases found : c.entryFor? ns with
  | none => simp [found] at member
  | some e =>
    obtain rfl : e.ns = ns := (Catalog.entryFor?_eq_some_iff.1 found).2
    have plain : e.ns.Plain := plain _ listed
    have entry : e ∈ entries := known _ listed e found
    simp only [found, Option.elim_some, describing, List.mem_cons, List.not_mem_nil,
      or_false] at member
    obtain rfl | rfl := member
    · exact ⟨_, _, .database entry plain, .directory plain.db.toIsStep⟩
    · exact ⟨_, _, .description entry plain, .file plain.db.toIsStep plain.isStep_description⟩

theorem performed_describeAll (plain : ∀ ns ∈ wanted, ns.Plain)
    (known : ∀ ns ∈ wanted, ∀ e, c.entryFor? ns = some e → e ∈ entries) (t : Tree) :
    Performed out (Described entries) t (describeAll c (wanted.map (fileOf out)) t).2 := by
  obtain ⟨context, same⟩ := describeAll_attempts plain out c t
  rw [same]
  exact .attemptAll (describingAll_described plain known) t

theorem performed_create {ns : Namespace} (member : ns ∈ list) (plain : ns.Plain) (t : Tree) :
    Performed out (Share list) t (create (fileOf out ns) t).2 := by
  -- the description plays no part in it
  have created := create_attempts (e := ⟨ns, ""⟩) plain out t
  rw [created]
  refine .attemptAll (fun o listed => ?_) t
  simp only [creating, List.mem_cons, List.not_mem_nil, or_false] at listed
  obtain rfl | rfl := listed
  · exact ⟨_, _, .database member plain, .directory plain.db.toIsStep⟩
  · exact ⟨_, _, .records member plain, .file plain.db.toIsStep plain.isStep_file⟩

theorem performed_createAll (within : ∀ ns ∈ wanted, ns ∈ list ∧ ns.Plain) (t : Tree) :
    Performed out (Share list) t (createAll (wanted.map (fileOf out)) t).2 := by
  induction wanted generalizing t with
  | nil => exact .refl t
  | cons ns rest ih =>
    obtain ⟨⟨member, plain⟩, others⟩ := List.forall_mem_cons.1 within
    exact (performed_create member plain t).trans (ih others _)

theorem performed_store (within : ∀ ns ∈ wanted, ns ∈ list ∧ ns.Plain)
    (intents : List Restore.Intent) (workers : List Restore.Worker) (t : Tree) :
    Performed out (Share list) t (store (wanted.map (fileOf out)) intents workers t) := by
  induction wanted generalizing intents workers t with
  | nil => simp [store]
  | cons ns rest ih =>
    obtain ⟨⟨member, plain⟩, others⟩ := List.forall_mem_cons.1 within
    cases intents with
    | nil => simp [store]
    | cons i intents =>
      cases workers with
      | nil => simp [store]
      | cons w workers =>
        rw [List.map_cons, store]
        refine Performed.trans ?_ (ih others intents workers _)
        split
        · exact .one (.records member plain) (.file plain.db.toIsStep plain.isStep_file) t
        · exact .refl t

theorem performed_restore (within : ∀ ns ∈ wanted, ns ∈ list ∧ ns.Plain)
    (readOn : Tree → Restore.Archive → Restore.Archive) (t : Tree) :
    Performed out (Share list) t (restore readOn a (wanted.map (fileOf out)) t).2 := by
  unfold restore
  split
  · exact .refl t
  · have created : Performed out (Share list) t (createAll (wanted.map (fileOf out)) t).2 :=
      performed_createAll within t
    have stored (intents workers) := created.trans (performed_store within intents workers _)
    dsimp only
    split <;> exact stored _ _

/-- Descriptions are part of the share of their namespaces. -/
theorem Described.share {below : Location} {node : Node} (described : Described entries below node)
    (within : ∀ e ∈ entries, e.ns ∈ list) : Share list below node := by
  cases described with
  | database member plain => exact .database (within _ member) plain
  | description member plain => exact .description (within _ member) plain

/-- The entries of a catalog that are asked for. -/
def named (args : UnpackArgs) (c : Catalog) : List CatalogEntry :=
  c.entries.filter (·.ns ∈ chosen args c)

theorem mem_named {e : CatalogEntry} :
    e ∈ named args c ↔ e ∈ c.entries ∧ e.ns ∈ chosen args c := by
  simp [named]

theorem performed_descriptions (plain : ∀ ns ∈ chosen args c, ns.Plain) (t : Tree) :
    Performed args.out (Described (named args c)) t
      (describeAll c ((chosen args c).map (fileOf args.out)) t).2 := by
  refine performed_describeAll plain (fun ns member e found => ?_) t
  obtain ⟨entry, rfl⟩ := Catalog.entryFor?_eq_some_iff.1 found
  exact mem_named.2 ⟨entry, member⟩

/-- A request with a bad name is refused before anything is done. -/
theorem run_of_wild (format : OutputFormat) (opened : openArchive s args.archive = .ok a)
    (wild : ∃ ns ∈ chosen args a.catalog, ¬ ns.Plain) :
    ∃ failure, run format args s = .failed s.tree failure ∧
      failure.code = if args.namespaces = [] then .dataInvalid else .usage := by
  obtain ⟨failure, refused, code⟩ := selection_of_wild wild
  exact ⟨failure, by simp only [run, opened, refused], code⟩

theorem performed_run (format : OutputFormat) (args : UnpackArgs) (s : Setting) :
    Performed args.out (Share (requested args s)) s.tree (run format args s).tree := by
  cases opened : openArchive s args.archive with
  | error failure => simp [run, opened, Outcome.failed]
  | ok a =>
    rw [show requested args s = chosen args a.catalog by simp only [requested, opened]]
    by_cases plain : ∀ ns ∈ chosen args a.catalog, ns.Plain
    · have within : ∀ e ∈ named args a.catalog, e.ns ∈ chosen args a.catalog :=
        fun e member => (mem_named.1 member).2
      have described := (performed_descriptions plain s.tree).mono fun below node described =>
        described.share within
      have restored (t : Tree) : Performed args.out (Share (chosen args a.catalog)) t
          (restore (readOn s args.archive) a ((chosen args a.catalog).map (fileOf args.out)) t).2 :=
        performed_restore (fun ns member => ⟨member, plain ns member⟩) _ t
      simp only [run, opened, selection_of_plain plain]
      split
      · next describes =>
        rw [describes] at described
        exact described
      · next u describes =>
        rw [describes] at described
        have both := described.trans (restored u)
        split <;>
          · next restores =>
            rw [restores] at both
            exact both
    · obtain ⟨failure, refused, -⟩ := run_of_wild format opened (by simpa using plain)
      rw [refused]
      exact .refl s.tree

/-- Whatever the archive and the arguments are, unpacking does nothing but make the directories and
write the files of selected namespaces with plain names, below the output directory. Nothing is done
when a selected namespace has other names. No two namespaces share a file. -/
theorem run_confined (format : OutputFormat) (args : UnpackArgs) (s : Setting) :
    let list := requested args s
    let o := run format args s
    Performed args.out (Share list) s.tree o.tree ∧
    Confined args.out (Share list) s.tree o.tree ∧
    ((∃ ns ∈ list, ¬ ns.Plain) → ∃ failure, o = .failed s.tree failure) ∧
    ∀ a ∈ list, ∀ b ∈ list, a ≠ b → ∀ first second,
      Path.data args.out a = .ok first → Path.data args.out b = .ok second →
        ([first, Path.metadata args.out a, second, Path.metadata args.out b].map
          Path.steps).Nodup := by
  intro list o
  have performed := performed_run format args s
  refine ⟨performed, performed.confined, ?_, ?_⟩
  · rintro ⟨ns, member, wild⟩
    cases opened : openArchive s args.archive with
    | error failure => exact ⟨failure, by simp only [o, run, opened]⟩
    | ok a =>
      have member : ns ∈ chosen args a.catalog := by
        simpa only [list, requested, opened] using member
      obtain ⟨failure, refused, -⟩ := run_of_wild format opened ⟨ns, member, wild⟩
      exact ⟨failure, refused⟩
  · exact fun a _ b _ apart first second one two => Path.nodup_files apart one two

/-- A catalog that leads out of the output directory. -/
def straying : Catalog := ⟨.current 1, [⟨⟨"a", "b"⟩, "{}"⟩, ⟨⟨"..", "x"⟩, "{}"⟩], by decide⟩

theorem formed_straying : straying.front.Formed Record.defaultMax := by
  refine Catalog.formed_front (Record.check_eq_ok_iff.1 (by cbv)) fun e member => ?_
  simp only [straying, List.mem_cons, List.not_mem_nil, or_false] at member
  obtain rfl | rfl := member <;> exact ⟨Record.check_eq_ok_iff.1 (by cbv), by decide⟩

theorem run_confined_straying :
    let s : Setting := ⟨.empty, straying.front.bytes⟩
    ⟨"a", "b"⟩ ∈ requested ⟨"-", "out", []⟩ s ∧ ⟨"..", "x"⟩ ∈ requested ⟨"-", "out", []⟩ s ∧
      ∃ failure, run .json ⟨"-", "out", []⟩ s = .failed .empty failure := by
  intro s
  have source : openSource s "-" = .ok (.ofBytes (straying.front.bytes ++ [])) := by
    rw [List.append_nil]
    rfl
  obtain ⟨a, opened, same⟩ := openArchive_of_front source formed_straying
  have both : requested ⟨"-", "out", []⟩ s = [⟨"a", "b"⟩, ⟨"..", "x"⟩] := by
    simp only [requested, opened, same]
    rfl
  obtain ⟨-, -, refused, -⟩ := run_confined .json ⟨"-", "out", []⟩ s
  rw [both] at refused ⊢
  refine ⟨by simp, by simp, refused ⟨⟨"..", "x"⟩, by simp, fun plain => plain.db.up rfl⟩⟩

end DumpArchive.Command.Unpack
