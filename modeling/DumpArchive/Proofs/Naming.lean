import DumpArchive.Command.Arguments
import DumpArchive.Proofs.ListUpdates

/-! Namespaces by their text form. A text is read as the one namespace that it is the form of and
whose database has no dot, and these are the namespaces that a command line can ask for. -/
namespace DumpArchive

namespace Namespace

variable {ns : Namespace} {s : String}

/-- Both parts are there, and the first dot of the text form is the one between them. -/
structure Selectable (ns : Namespace) : Prop where
  db : ns.db ≠ ""
  collection : ns.collection ≠ ""
  undotted : '.' ∉ ns.db.toList

theorem toList_shown (ns : Namespace) :
    ns.shown.toList = ns.db.toList ++ '.' :: ns.collection.toList := by
  simp [shown]

theorem parse?_eq_some_iff : parse? s = some ns ↔ ns.Selectable ∧ ns.shown = s := by
  constructor
  · intro h
    unfold parse? at h
    split at h
    · next c db dot d collection found =>
      obtain ⟨whole, rfl, undotted⟩ := span_ne_eq_iff.1 found
      obtain rfl := Option.some.inj h
      refine ⟨⟨by simp, by simp, by simpa using undotted⟩, String.toList_injective ?_⟩
      rw [whole, toList_shown, String.toList_ofList, String.toList_ofList]
    · contradiction
  · rintro ⟨selectable, rfl⟩
    cases front : ns.db.toList with
    | nil => exact absurd (String.toList_eq_nil_iff.1 front) selectable.db
    | cons c db =>
      cases back : ns.collection.toList with
      | nil => exact absurd (String.toList_eq_nil_iff.1 back) selectable.collection
      | cons d collection =>
        have undotted := selectable.undotted
        rw [front] at undotted
        have form : ns.shown.toList = (c :: db) ++ '.' :: d :: collection := by
          rw [toList_shown, front, back]
        rw [parse?, span_ne_eq_iff.2 ⟨form, rfl, undotted⟩]
        simp only [← front, ← back, String.ofList_toList]

/-- Further dots belong to the collection. -/
example : parse? "a..b." = some ⟨"a", ".b."⟩ ∧ parse? ".a.b" = none ∧ parse? "a." = none := by
  decide

theorem parse?_shown_iff : parse? ns.shown = some ns ↔ ns.Selectable := by
  rw [parse?_eq_some_iff, and_iff_left rfl]

end Namespace

namespace Command.Arguments

variable {list : List Namespace} {key : Key} {value : String} {values before after : Values}

/-- The word that asks for a namespace. -/
def asking (ns : Namespace) : String := "--namespace=" ++ ns.shown

/-- What is read of words that ask for namespaces. -/
def asked (list : List Namespace) : Values := list.map fun ns => (.namespaces, ns.shown)

theorem classify_asking (ns : Namespace) :
    classify (switchesOf "unpack") (asking ns) = .valued .namespaces ns.shown := by
  have form : (asking ns).toList =
      '-' :: '-' :: ("namespace".toList ++ '=' :: ns.shown.toList) := by
    rw [asking, String.toList_append]
    rfl
  have found : (switchesOf "unpack").find? (·.long = "namespace") =
      some ⟨"namespace", none, .namespaces⟩ := by
    simp [switchesOf, outputSwitches, unpackSwitches]
  rw [classify, form]
  simp [found]

theorem scan_asking (list : List Namespace) :
    scan (switchesOf "unpack") (list.map asking) = some (asked list, []) := by
  induction list with
  | nil => rfl
  | cons ns rest ih =>
    rw [List.map_cons, scan, classify_asking, ih]
    rfl

theorem all_cons : all key ((key, value) :: values) = value :: all key values := by
  simp [all]

theorem all_cons_other {other : Key} (apart : other ≠ key) :
    all key ((other, value) :: values) = all key values := by
  simp [all, apart]

theorem all_asked (list : List Namespace) : all .namespaces (asked list) = list.map (·.shown) := by
  induction list with
  | nil => rfl
  | cons ns rest ih => rw [asked, List.map_cons, all_cons, ← asked, ih, List.map_cons]

theorem all_asked_other (apart : .namespaces ≠ key) : all key (asked list) = [] := by
  induction list with
  | nil => rfl
  | cons ns rest ih => rw [asked, List.map_cons, all_cons_other apart, ← asked, ih]

theorem output?_absent {α : Type} {read : String → Option α} {absent : α}
    (first : all key before = []) (second : all key after = []) :
    output? key read absent before after = some absent := by
  simp [output?, atMostOne?, first, second]

/-- The texts after the option are all read, or none is. -/
theorem mapM_parse?_iff {texts : List String} :
    texts.mapM Namespace.parse? = some list ↔
      texts = list.map (·.shown) ∧ ∀ ns ∈ list, ns.Selectable := by
  induction texts generalizing list with
  | nil => cases list <;> simp
  | cons text rest ih =>
    simp only [List.mapM_cons, Option.bind_eq_bind, Option.bind_eq_some_iff, Option.pure_def,
      Option.some.injEq, ih, Namespace.parse?_eq_some_iff]
    constructor
    · rintro ⟨ns, ⟨selectable, rfl⟩, others, ⟨rfl, all⟩, rfl⟩
      exact ⟨rfl, List.forall_mem_cons.2 ⟨selectable, all⟩⟩
    · cases list with
      | nil => simp
      | cons ns others =>
        rintro ⟨same, all⟩
        obtain ⟨rfl, rfl⟩ := List.cons.inj same
        obtain ⟨selectable, all⟩ := List.forall_mem_cons.1 all
        exact ⟨ns, ⟨selectable, rfl⟩, others, ⟨rfl, all⟩, rfl⟩

/-- A command line that asks for some namespaces is read so. -/
theorem parse?_asking (selectable : ∀ ns ∈ list, ns.Selectable) :
    parse? ("unpack" :: "-" :: "--out=." :: list.map asking) =
      some ⟨.json, .text, .info, .unpack ⟨"-", ".", list⟩⟩ := by
  have command : scanCommand ("unpack" :: "-" :: "--out=." :: list.map asking) =
      some ([], "unpack", "-" :: "--out=." :: list.map asking) := rfl
  have options : scan (switchesOf "unpack") ("-" :: "--out=." :: list.map asking) =
      some ((.out, ".") :: asked list, ["-"]) := by
    have operand : classify (switchesOf "unpack") "-" = .operand := rfl
    have option : classify (switchesOf "unpack") "--out=." = .valued .out "." := rfl
    simp only [scan, operand, option, scan_asking, Option.map_some]
  have action : action? "unpack" ((.out, ".") :: asked list) ["-"] =
      some (.unpack ⟨"-", ".", list⟩) := by
    have out : all .out ((.out, ".") :: asked list) = ["."] := by
      rw [all_cons, all_asked_other (by decide)]
    have read : (all .namespaces ((.out, ".") :: asked list)).mapM Namespace.parse? =
        some list := by
      rw [all_cons_other (by decide), all_asked]
      exact mapM_parse?_iff.2 ⟨rfl, selectable⟩
    simp [action?, operand?, one?, atMostOne?, path?, out, read]
  have absent (key : Key) (other : .out ≠ key) (apart : .namespaces ≠ key) :
      all key ((.out, ".") :: asked list) = [] := by
    rw [all_cons_other other, all_asked_other apart]
  simp only [parse?, command, options, action, Option.bind_eq_bind, Option.bind_some]
  rw [output?_absent rfl (absent _ (by decide) (by decide)),
    output?_absent rfl (absent _ (by decide) (by decide)),
    output?_absent rfl (absent _ (by decide) (by decide))]
  rfl

theorem mapM_of_action? {command : String} {operands : List String} {args : UnpackArgs}
    (h : action? command values operands = some (.unpack args)) :
    (all .namespaces values).mapM Namespace.parse? = some args.namespaces := by
  unfold action? at h
  split at h
  all_goals
    simp only [Option.bind_eq_bind, Option.bind_eq_some_iff, Option.pure_def, Option.some.injEq,
      Option.ite_none_right_eq_some, reduceCtorEq, and_false, exists_false, Action.unpack.injEq]
      at h
  obtain ⟨_, -, _, -, namespaces, read, rfl⟩ := h
  exact read

theorem selectable_of_parse? {words : List String} {i : Invocation} {args : UnpackArgs}
    (h : parse? words = some i) (action : i.action = .unpack args) :
    ∀ ns ∈ args.namespaces, ns.Selectable := by
  simp only [parse?, Option.bind_eq_bind, Option.bind_eq_some_iff, Option.pure_def,
    Option.some.injEq] at h
  obtain ⟨_, -, ⟨values, _⟩, -, chosen, acts, _, -, _, -, _, -, rfl⟩ := h
  obtain rfl := action
  exact (mapM_parse?_iff.1 (mapM_of_action? acts)).2

end Command.Arguments

namespace Namespace

/-- Reading undoes showing on the selectable namespaces and on no others; showing undoes reading
wherever it succeeds; and any list of selectable namespaces, but no other, can stand in a command. -/
theorem parse?_shown :
    (∀ s ns, parse? s = some ns ↔ ns.Selectable ∧ ns.shown = s) ∧
    (∀ ns, parse? ns.shown = some ns ↔ ns.Selectable) ∧
    ∀ list : List Namespace, (∃ words i args, Command.Arguments.parse? words = some i ∧
      i.action = .unpack args ∧ args.namespaces = list) ↔ ∀ ns ∈ list, ns.Selectable := by
  refine ⟨fun s ns => parse?_eq_some_iff, fun ns => parse?_shown_iff, fun list => ⟨?_, ?_⟩⟩
  · rintro ⟨words, i, args, read, action, rfl⟩
    exact Command.Arguments.selectable_of_parse? read action
  · intro selectable
    exact ⟨_, _, _, Command.Arguments.parse?_asking selectable, rfl, rfl⟩

end Namespace
end DumpArchive
