import DumpArchive.Proofs.Registrations
import DumpArchive.Proofs.Unpacking

/-! Requests that are refused. A bad name is found before anything is done. That the catalog lacks a
namespace, or that one is given twice, is found only when the descriptions of the others have been
written. -/
namespace DumpArchive

theorem Registry.usage_of_add {α : Type} {r : Registry α} {ns : Namespace} {a : α} {e : EngineError}
    (going : r.finished = false) (refused : r.add ns a = .error e) (context : String) :
    (Failure.ofEngineError context e).code = .usage := by
  unfold add at refused
  rw [going] at refused
  split at refused
  · obtain rfl := Except.error.inj refused
    rfl
  · split at refused
    · contradiction
    · split at refused
      · obtain rfl := Except.error.inj refused
        rfl
      · split at refused
        · obtain rfl := Except.error.inj refused
          rfl
        · split at refused
          · obtain rfl := Except.error.inj refused
            rfl
          · contradiction

namespace Restore

variable {intents : List Intent} {a : Archive} {roster next : Roster} {list : List Worker}
  {e : EngineError}

/-- Consumers that have all been registered are for namespaces that nobody had before. -/
theorem nodup_of_enlist (distinct : roster.registry.keys.Nodup)
    (enlisted : enlist intents roster = .ok (list, next)) :
    (roster.registry.keys ++ intents.map (·.ns)).Nodup := by
  induction intents generalizing roster list with
  | nil => simpa using distinct
  | cons i rest ih =>
    rw [enlist, Roster.open?] at enlisted
    split at enlisted
    · contradiction
    · next outlet mid opens =>
      split at opens
      · contradiction
      · next registry adds =>
        obtain ⟨rfl, rfl⟩ := Prod.mk.inj (Except.ok.inj opens)
        obtain ⟨admits, rfl⟩ := Registry.add_eq_ok_iff.1 adds
        split at enlisted
        · contradiction
        · next others =>
          obtain ⟨-, rfl⟩ := Prod.mk.inj (Except.ok.inj enlisted)
          have apart : (roster.registry.keys ++ [i.ns]).Nodup :=
            List.nodup_append.2 ⟨distinct, by simp, by
              rintro ns used _ new rfl
              exact admits.unused (List.mem_singleton.1 new ▸ used)⟩
          simpa using ih (by rwa [Registry.keys_insert]) others

theorem usage_of_enlist (going : roster.registry.finished = false)
    (refused : enlist intents roster = .error e) (context : String) :
    (Failure.ofEngineError context e).code = .usage := by
  induction intents generalizing roster with
  | nil => contradiction
  | cons i rest ih =>
    rw [enlist, Roster.open?] at refused
    split at refused
    · next f opens =>
      obtain rfl := Except.error.inj refused
      split at opens
      · next adds =>
        obtain rfl := Except.error.inj opens
        exact Registry.usage_of_add going adds context
      · contradiction
    · next outlet mid opens =>
      split at opens
      · contradiction
      · next registry adds =>
        obtain ⟨rfl, rfl⟩ := Prod.mk.inj (Except.ok.inj opens)
        obtain ⟨-, rfl⟩ := Registry.add_eq_ok_iff.1 adds
        split at refused
        · next others =>
          obtain rfl := Except.error.inj refused
          refine ih ?_ others
          exact going
        · contradiction

/-- Namespaces that the catalog lacks, or that are asked for twice, are not admitted. -/
theorem prepare_refuses (refused : (∃ i ∈ intents, i.ns ∉ a.catalog.namespaces) ∨
      ¬ (intents.map (·.ns)).Nodup) :
    ∃ e, prepare intents a = .error e ∧
      ∀ context, (Failure.ofEngineError context e).code = .usage := by
  unfold prepare
  split
  · next i found => exact ⟨_, rfl, fun _ => rfl⟩
  · next known =>
    have known : ∀ i ∈ intents, i.ns ∈ a.catalog.namespaces := by
      simpa using List.find?_eq_none.1 known
    split
    · next e refused =>
      refine ⟨e, rfl, usage_of_enlist ?_ refused⟩
      rfl
    · next list roster enlisted =>
      have distinct := nodup_of_enlist (by exact List.nodup_nil) enlisted
      rcases refused with ⟨i, member, unknown⟩ | repeated
      · exact absurd (known i member) unknown
      · exact absurd distinct repeated

end Restore

/-- A fault of the surroundings is no misuse. -/
theorem Failure.code_ofIoError (context : String) (e : IoError) :
    (Failure.ofIoError context e).code ≠ .usage ∧
      (Failure.ofIoError context e).code ≠ .success := by
  obtain ⟨kind, text⟩ := e
  cases kind <;> simp [ofIoError, ofKind]

namespace Command.Unpack

open DumpArchive.Tree (Performed Confined)

variable {s : Setting} {args : UnpackArgs} {a : Restore.Archive} {out : String} {c : Catalog}
  {e : CatalogEntry} {wanted : List Namespace} {t u : Tree} {failure : Failure}

/-- A request that no archive with this catalog can meet. -/
inductive Refused (args : UnpackArgs) (c : Catalog) : Prop
  | wild : (∃ ns ∈ chosen args c, ¬ ns.Plain) → Refused args c
  | unknown : (∃ ns ∈ chosen args c, ns ∉ c.namespaces) → Refused args c
  | repeated : ¬ (chosen args c).Nodup → Refused args c

theorem describeAll_error (plain : ∀ ns ∈ wanted, ns.Plain)
    (describes : describeAll c (wanted.map (fileOf out)) t =
    (.error failure, u)) : failure.code ≠ .usage ∧ failure.code ≠ .success := by
  obtain ⟨context, same⟩ := describeAll_attempts plain out c t
  rw [same] at describes
  obtain ⟨fails, -⟩ := Prod.mk.inj describes
  cases attempted : (Tree.attemptAll (describingAll out c wanted) t).1 with
  | error fault =>
    rw [attempted] at fails
    obtain rfl := Except.error.inj fails
    exact Failure.code_ofIoError context fault.error
  | ok _ =>
    rw [attempted] at fails
    contradiction

theorem describeAll_of_unknown (plain : ∀ ns ∈ wanted, ns.Plain)
    (unknown : ∀ ns ∈ wanted, ns ∉ c.namespaces) (t : Tree) :
    describeAll c (wanted.map (fileOf out)) t = (.ok (), t) := by
  have nothing : describingAll out c wanted = [] := by
    refine List.flatMap_eq_nil_iff.2 fun ns member => ?_
    rw [Catalog.entryFor?_eq_none_iff.2 (unknown ns member), Option.elim_none]
  obtain ⟨context, same⟩ := describeAll_attempts plain out c t
  rw [same, nothing]
  rfl

/-- The place of a description is for that description only. -/
theorem Described.only {node : Node} (member : e ∈ c.entries)
    (described : Described c.entries [e.ns.db, e.ns.collection ++ ".metadata.json"] node) :
    node = .file (Bytes.ofText e.metadata) := by
  generalize spot : [e.ns.db, e.ns.collection ++ ".metadata.json"] = below at described
  cases described with
  | database => simp at spot
  | @description other also _ =>
    simp only [List.cons.injEq, and_true] at spot
    obtain ⟨db, file⟩ := spot
    have collection := (String.append_left_inj _).1 file
    have same : e.ns = other.ns := by
      obtain ⟨⟨_, _⟩, _⟩ := e
      obtain ⟨⟨_, _⟩, _⟩ := other
      simp_all
    rw [Catalog.entry_inj member also same]

/-- Descriptions that have all been written are found. -/
theorem find_describeAll (plain : ∀ ns ∈ wanted, ns.Plain)
    (describes : describeAll c (wanted.map (fileOf out)) t = (.ok (), u))
    (member : e ∈ c.entries) (listed : e.ns ∈ wanted) :
    u.find (Path.metadata out e.ns) = .ok (.file (Bytes.ofText e.metadata)) := by
  obtain ⟨context, same⟩ := describeAll_attempts plain out c t
  rw [same] at describes
  obtain ⟨passes, after⟩ := Prod.mk.inj describes
  obtain ⟨succeed, rfl⟩ :=
    Tree.attemptAll_eq_ok_iff.1 (Prod.ext (reported_eq_ok_iff.1 passes) after)
  have here : e.ns.Plain := plain e.ns listed
  have allowed : ∀ o ∈ describingAll out c wanted, ∃ below node,
      Described c.entries below node ∧ Tree.Puts out below node o :=
    describingAll_described plain fun ns _ d found => (Catalog.entryFor?_eq_some_iff.1 found).1
  have written : .writeFile (Path.metadata out e.ns) (Bytes.ofText e.metadata) ∈
      describingAll out c wanted :=
    List.mem_flatMap.2 ⟨e.ns, listed, by simp [Catalog.entryFor?_of_mem member, describing]⟩
  exact Tree.find_of_succeed allowed succeed here.db.toIsStep here.isStep_description written
    fun node described => described.only member

/-- A request with plain names is refused over its namespaces when the descriptions are written,
or fails before that over one of them. -/
theorem run_of_unmet (format : OutputFormat) (opened : openArchive s args.archive = .ok a)
    (plain : ∀ ns ∈ chosen args a.catalog, ns.Plain)
    (unmet : (∃ ns ∈ chosen args a.catalog, ns ∉ a.catalog.namespaces) ∨
      ¬ (chosen args a.catalog).Nodup) :
    ∃ result t failure, describeAll a.catalog ((chosen args a.catalog).map
        (fileOf args.out)) s.tree = (result, t) ∧ run format args s = .failed t failure ∧
      failure.code ≠ .success ∧ (failure.code = .usage ↔ result = .ok ()) := by
  simp only [run, opened, selection_of_plain plain]
  cases describes : describeAll a.catalog ((chosen args a.catalog).map
      (fileOf args.out)) s.tree with
  | mk result t =>
    cases result with
    | error failure =>
      obtain ⟨usage, success⟩ := describeAll_error plain describes
      exact ⟨_, t, failure, rfl, rfl, success, by simpa using usage⟩
    | ok _ =>
      have asked : ((chosen args a.catalog).map (fileOf args.out)).map
          (fun s => (⟨s.ns, .opens .empty⟩ : Restore.Intent)) =
          (chosen args a.catalog).map fun ns => ⟨ns, .opens .empty⟩ := by
        rw [List.map_map]
        rfl
      have refuses : ∃ e, Restore.prepare ((chosen args a.catalog).map fun ns =>
            ⟨ns, .opens .empty⟩) a = .error e ∧
          ∀ context, (Failure.ofEngineError context e).code = .usage :=
        Restore.prepare_refuses (by simpa [Function.comp_def] using unmet)
      obtain ⟨e, refused, code⟩ := refuses
      refine ⟨_, t, .ofEngineError "unpack failed" e, rfl, ?_, by simp [code], by simp [code]⟩
      simp only [restore, asked, refused]

/-- A request that is refused over a bad name, or over namespaces of which the catalog has none,
leaves everything as it was. Otherwise descriptions of entries that were asked for are left behind,
all of them unless writing one has failed, and nothing else. -/
theorem run_refused (format : OutputFormat) (args : UnpackArgs) (s : Setting) (a : Restore.Archive)
    (opened : openArchive s args.archive = .ok a) (refused : Refused args a.catalog) :
    let o := run format args s
    o.exitCode ≠ .success ∧
    ((∃ ns ∈ chosen args a.catalog, ¬ ns.Plain) ∨
        (∀ ns ∈ chosen args a.catalog, ns ∉ a.catalog.namespaces) →
      o.tree = s.tree ∧ o.exitCode = if args.namespaces = [] then .dataInvalid else .usage) ∧
    Performed args.out (Described (named args a.catalog)) s.tree o.tree ∧
    Confined args.out (Described (named args a.catalog)) s.tree o.tree ∧
    ((∀ ns ∈ chosen args a.catalog, ns.Plain) → o.exitCode = .usage →
      ∀ e ∈ named args a.catalog,
        o.tree.find (Path.metadata args.out e.ns) = .ok (.file (Bytes.ofText e.metadata))) := by
  intro o
  by_cases plain : ∀ ns ∈ chosen args a.catalog, ns.Plain
  · have unmet : (∃ ns ∈ chosen args a.catalog, ns ∉ a.catalog.namespaces) ∨
        ¬ (chosen args a.catalog).Nodup := by
      cases refused with
      | wild wild =>
        obtain ⟨ns, member, wild⟩ := wild
        exact absurd (plain ns member) wild
      | unknown unknown => exact .inl unknown
      | repeated repeated => exact .inr repeated
    have given : args.namespaces ≠ [] := by
      intro all
      have catalog : chosen args a.catalog = a.catalog.namespaces := if_pos all
      rw [catalog] at unmet
      rcases unmet with ⟨ns, member, unknown⟩ | repeated
      · exact unknown member
      · exact repeated a.catalog.distinct
    obtain ⟨result, t, failure, describes, fails, success, code⟩ :=
      run_of_unmet format opened plain unmet
    have ends : o = .failed t failure := fails
    have performed := performed_descriptions plain s.tree
    rw [describes] at performed
    rw [ends]
    refine ⟨success, ?_, performed, performed.confined, ?_⟩
    · rintro (⟨ns, member, wild⟩ | unknown)
      · exact absurd (plain ns member) wild
      · rw [describeAll_of_unknown plain unknown] at describes
        obtain ⟨rfl, rfl⟩ := Prod.mk.inj describes
        rw [if_neg given]
        exact ⟨rfl, code.2 rfl⟩
    · intro _ usage e member
      obtain ⟨entry, listed⟩ := mem_named.1 member
      rw [code.1 usage] at describes
      exact find_describeAll plain describes entry listed
  · have wild : ∃ ns ∈ chosen args a.catalog, ¬ ns.Plain := by simpa using plain
    obtain ⟨failure, fails, code⟩ := run_of_wild format opened wild
    have ends : o = .failed s.tree failure := fails
    have success : failure.code ≠ .success := by
      rw [code]
      split <;> simp
    rw [ends]
    exact ⟨success, fun _ => ⟨rfl, code⟩, .refl _, .refl _, fun all => absurd all plain⟩

/-- The description of the collection is written whether it is asked for again or another is. -/
theorem exists_describeAll_sole {other : Namespace}
    (member : other = ⟨"a", "b"⟩ ∨ other = ⟨"c", "d"⟩) :
    ∃ t, describeAll soleCatalog ([⟨"a", "b"⟩, other].map (fileOf "out")) vacant =
      (.ok (), t) := by
  have known : soleCatalog.entryFor? (fileOf "out" ⟨"a", "b"⟩).ns = some ⟨⟨"a", "b"⟩, "{}"⟩ :=
    Catalog.entryFor?_eq_some_iff.2 ⟨List.mem_singleton_self _, rfl⟩
  have fits : Fits "out" ⟨⟨"a", "b"⟩, [], "{}"⟩ := ⟨reachable_sole, isName_sole⟩
  obtain ⟨t, first, shelf⟩ := describe_eq (.start sound_vacant leads_vacant empty_vacant) fits
  have first : describe (fileOf "out" ⟨"a", "b"⟩) "{}" vacant = (.ok (), t) := first
  obtain rfl | rfl := member
  · obtain ⟨u, second, -⟩ := describe_eq shelf fits
    have second : describe (fileOf "out" ⟨"a", "b"⟩) "{}" t = (.ok (), u) := second
    exact ⟨u, by simp only [List.map, describeAll, known, first, second]⟩
  · have missing : soleCatalog.entryFor? (fileOf "out" ⟨"c", "d"⟩).ns = none :=
      Catalog.entryFor?_eq_none_iff.2 (by decide)
    exact ⟨t, by simp only [List.map, describeAll, known, first, missing]⟩

/-- A namespace that is given twice, or beside one that the catalog lacks: the request is refused
and its description has been written. -/
theorem description_left :
    let s : Setting := ⟨vacant, sole.bytes⟩
    let left := "out/a/b.metadata.json"
    ∃ a, openArchive s "-" = .ok a ∧
      ∀ other, other = ⟨"a", "b"⟩ ∨ other = ⟨"c", "d"⟩ →
        let args : UnpackArgs := ⟨"-", "out", [⟨"a", "b"⟩, other]⟩
        Refused args a.catalog ∧ (run .json args s).exitCode = .usage ∧
          s.tree.find left = .error .notFound ∧
          (run .json args s).tree.find left = .ok (.file (Bytes.ofText "{}")) := by
  intro s left
  have source : openSource s "-" = .ok (.ofBytes sole.bytes) := rfl
  obtain ⟨a, opened, same⟩ := openArchive_of_front source formed_sole.front
  refine ⟨a, opened, ?_⟩
  intro other member args
  have listed : chosen args a.catalog = [⟨"a", "b"⟩, other] := rfl
  have first : Namespace.Plain ⟨"a", "b"⟩ := Path.isPlainNamespace_iff.1 (by decide)
  have plain : ∀ ns ∈ chosen args a.catalog, ns.Plain := by
    have second : other.Plain := by
      obtain rfl | rfl := member
      · exact first
      · exact Path.isPlainNamespace_iff.1 (by decide)
    simp [listed, first, second]
  have unmet : (∃ ns ∈ chosen args a.catalog, ns ∉ a.catalog.namespaces) ∨
      ¬ (chosen args a.catalog).Nodup := by
    obtain rfl | rfl := member
    · exact .inr (by simp [listed])
    · exact .inl ⟨⟨"c", "d"⟩, by simp [listed], by rw [same]; decide⟩
  obtain ⟨t, describes⟩ := exists_describeAll_sole member
  obtain ⟨result, u, failure, done, fails, -, code⟩ := run_of_unmet .json opened plain unmet
  rw [listed, same] at done
  obtain ⟨rfl, rfl⟩ := Prod.mk.inj (describes.symm.trans done)
  have path : left = Path.metadata "out" ⟨"a", "b"⟩ := by decide
  have entry : (⟨⟨"a", "b"⟩, "{}"⟩ : CatalogEntry) ∈ soleCatalog.entries :=
    List.mem_singleton_self _
  have stands := find_describeAll (listed ▸ plain) describes entry (List.mem_cons_self ..)
  rw [fails, path]
  exact ⟨unmet.elim .unknown .repeated, code.2 rfl, by decide, stands⟩

theorem run_refused_unknown :
    let s : Setting := ⟨vacant, sole.bytes⟩
    let args : UnpackArgs := ⟨"-", "out", [⟨"c", "d"⟩]⟩
    ∃ a, openArchive s "-" = .ok a ∧ Refused args a.catalog ∧
      (run .json args s).tree = vacant ∧ (run .json args s).exitCode = .usage := by
  intro s args
  have source : openSource s "-" = .ok (.ofBytes sole.bytes) := rfl
  obtain ⟨a, opened, same⟩ := openArchive_of_front source formed_sole.front
  have unknown : ⟨"c", "d"⟩ ∉ a.catalog.namespaces := by rw [same]; decide
  have refused : Refused args a.catalog := .unknown ⟨⟨"c", "d"⟩, List.mem_singleton_self _, unknown⟩
  obtain ⟨-, clean, -⟩ := run_refused .json args s a opened refused
  refine ⟨a, opened, refused, clean (.inr fun ns member => ?_)⟩
  obtain rfl := List.mem_singleton.1 member
  exact unknown

end Command.Unpack
end DumpArchive
