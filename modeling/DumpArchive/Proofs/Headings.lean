import DumpArchive.Proofs.Elements
import DumpArchive.Proofs.Writing

/-! Headings as documents. Each is a record and reads as itself. What a document reads as is told by
the elements under known keys alone, in whatever order they stand and whatever stands between. -/
namespace DumpArchive

open Document (Fields Value Sized Made)

namespace Document

variable {elements others : List (String × Value)} {keys : List String} {key : String}
  {f g : Fields} {α : Type} {read : Value → Option α} {absent : Option α}

theorem Fields.ofList_toList (f : Fields) : ofList f.toList = f := by
  match f with
  | .nil => rfl
  | .cons key value rest => simp only [toList, ofList, ofList_toList rest]

theorem Fields.toList_ofList (elements : List (String × Value)) :
    (ofList elements).toList = elements := by
  induction elements with
  | nil => rfl
  | cons e rest ih => simp only [ofList, toList, ih]

theorem Fields.values_ofList (key : String) (elements : List (String × Value)) :
    (ofList elements).values key = (elements.filter (·.1 = key)).map (·.2) := by
  induction elements with
  | nil => rfl
  | cons e rest ih => by_cases here : e.1 = key <;> simp [ofList, values, here, ih]

/-- A field is read from the values under its key, whatever their order. -/
theorem Fields.field?_of_perm (same : (f.values key).Perm (g.values key)) :
    f.field? key read absent = g.field? key read absent := by
  unfold field?
  generalize f.values key = list at same
  generalize g.values key = other at same
  match list with
  | [] => rw [same.nil_eq]
  | [v] => rw [List.perm_singleton.1 same.symm]
  | a :: b :: rest =>
    match other with
    | [] => simp at same
    | [v] => simpa using same.length_eq
    | c :: d :: more => rfl

/-- Elements under other keys do not matter to a field. -/
theorem Fields.field?_congr (known : key ∈ keys)
    (same : (elements.filter (·.1 ∈ keys)).Perm (others.filter (·.1 ∈ keys))) :
    (ofList elements).field? key read absent = (ofList others).field? key read absent := by
  have narrow (list : List (String × Value)) :
      (list.filter (·.1 ∈ keys)).filter (·.1 = key) = list.filter (·.1 = key) := by
    rw [List.filter_filter]
    refine List.filter_congr fun e _ => ?_
    by_cases here : e.1 = key <;> simp [here, known]
  apply field?_of_perm
  rw [values_ofList, values_ofList, ← narrow elements, ← narrow others]
  exact (same.filter _).map _

theorem Fields.field?_absent (missing : key ∉ elements.map (·.1)) :
    (ofList elements).field? key read absent = absent := by
  have none : (ofList elements).values key = [] := by
    rw [values_ofList, List.map_eq_nil_iff, List.filter_eq_nil_iff]
    intro e member here
    exact missing (List.mem_map.2 ⟨e, member, by simpa using here⟩)
  simp only [field?, none]

/-- A field is left out or read as before. -/
theorem Fields.field?_omit (omitted : List String) (elements : List (String × Value)) :
    (ofList (elements.filter (·.1 ∉ omitted))).field? key read absent =
      if key ∈ omitted then absent else (ofList elements).field? key read absent := by
  by_cases left : key ∈ omitted
  · rw [if_pos left]
    apply field?_absent
    simp [left]
  · rw [if_neg left]
    apply field?_of_perm
    rw [values_ofList, values_ofList, List.filter_filter]
    refine .of_eq (congrArg (List.map _) (List.filter_congr fun e _ => ?_))
    by_cases here : e.1 = key <;> simp [here, left]

theorem Fields.field?_repeated (again : 2 ≤ (elements.map (·.1)).count key) :
    (ofList elements).field? key read absent = none := by
  have many : 2 ≤ ((ofList elements).values key).length := by
    rw [List.count, List.countP_map, List.countP_eq_length_filter] at again
    rw [values_ofList, List.length_map]
    simpa [Function.comp_def, beq_eq_decide] using again
  unfold field?
  split
  · simp_all
  · simp_all
  · rfl

end Document

namespace Heading

/-- What a reader of a heading expects. -/
inductive Kind where
  | archive
  | collection
  | entry

def Kind.keys : Kind → List String
  | .archive => ["concurrent_collections", "version"]
  | .collection => ["db", "collection", "EOF"]
  | .entry => ["db", "collection", "metadata"]

/-- The keys that nothing stands in for. -/
def Kind.required : Kind → List String
  | .archive => ["concurrent_collections", "version"]
  | .collection | .entry => []

theorem Kind.keys_of_required {kind : Kind} {key : String} (needed : key ∈ kind.required) :
    key ∈ kind.keys := by
  cases kind with
  | archive => exact needed
  | collection => simp [required] at needed
  | entry => simp [required] at needed

def kind : Heading → Kind
  | .archive _ => .archive
  | .collection _ => .collection
  | .entry _ => .entry

def ofFields? (kind : Kind) (fields : Fields) : Option Heading :=
  match kind with
  | .archive => (ArchiveHeader.ofFields? fields).map .archive
  | .collection => (CollectionHeader.ofFields? fields).map .collection
  | .entry => (CatalogEntry.ofFields? fields).map .entry

def ofRecord? (kind : Kind) (record : Bytes) : Option Heading :=
  match kind with
  | .archive => (ArchiveHeader.ofRecord? record).map .archive
  | .collection => (CollectionHeader.ofRecord? record).map .collection
  | .entry => (CatalogEntry.ofRecord? record).map .entry

def fields : Heading → Fields
  | .archive header => header.fields
  | .collection header => header.fields
  | .entry e => e.fields

/-- The end of a namespace is announced. -/
def ends : Heading → Bool
  | .collection header => header.eof
  | _ => false

variable {h : Heading} {kind : Kind} {elements others : List (String × Value)} {w : Bytes}

theorem ofRecord?_eq (kind : Kind) (record : Bytes) :
    ofRecord? kind record = (Fields.decode? record).bind (ofFields? kind) := by
  cases kind <;>
    simp only [ofRecord?, ArchiveHeader.ofRecord?, CollectionHeader.ofRecord?,
      CatalogEntry.ofRecord?, Option.map_bind] <;> rfl

theorem record_eq (h : Heading) : h.record = h.fields.encode := by
  cases h <;> rfl

theorem proper_fields (h : Heading) : h.fields.Proper := by
  cases h with
  | archive header => exact header.proper_fields
  | collection header => exact header.proper_fields
  | entry e => exact e.proper_fields

theorem ofFields?_fields (h : Heading) : ofFields? h.kind h.fields = some h := by
  cases h with
  | archive header => simp [ofFields?, kind, fields, header.ofFields?_fields]
  | collection header => simp [ofFields?, kind, fields, header.ofFields?_fields]
  | entry e => simp [ofFields?, kind, fields, e.ofFields?_fields]

theorem keys_fields (h : Heading) :
    h.fields.toList.map (·.1) = h.kind.keys.filter fun key => key ≠ "EOF" ∨ h.ends := by
  cases h with
  | archive header => simp [kind, Kind.keys, fields, ArchiveHeader.fields, Fields.toList]
  | collection header =>
    cases eof : header.eof <;>
      simp [kind, Kind.keys, fields, CollectionHeader.fields, Fields.toList, ends, eof]
  | entry e => simp [kind, Kind.keys, fields, CatalogEntry.fields, Fields.toList]

/-- Whatever texts and numbers are in a heading: if a length can say how long its document is, that
document is a record under every limit that it does not exceed, and reads as the heading again. It
has all keys of its kind, except that the end mark is left out where nothing ends. -/
theorem record_survives (h : Heading) (sized : Sized h.record.length) :
    (∀ max : UInt64, h.record.length ≤ max.toNat → Record.check h.record max = .ok ()) ∧
      ofRecord? h.kind h.record = some h ∧
      (Fields.decode? h.record).map (·.toList.map (·.1)) =
        some (h.kind.keys.filter fun key => key ≠ "EOF" ∨ h.ends) := by
  rw [record_eq] at sized ⊢
  have decodes := Fields.decode?_encode h.proper_fields sized
  refine ⟨fun max most => ?_, ?_, ?_⟩
  · exact Record.check_eq_ok_iff.2 (Fields.formed_encode most sized)
  · rw [ofRecord?_eq, decodes, Option.bind_some, ofFields?_fields]
  · rw [decodes, Option.map_some, keys_fields]

/-- A nameless database, and a zero byte in the name of a collection. -/
theorem record_survives_odd_names :
    let h : Heading := .collection ⟨⟨"", "\x00é"⟩, false⟩
    h.record.length = 34 ∧ Record.check h.record 34 = .ok () ∧
      ofRecord? .collection h.record = some h := by
  intro h
  have size : h.record.length = 34 := by decide
  have sized : Sized h.record.length := by
    rw [size]
    decide
  obtain ⟨checks, reads, -⟩ := record_survives h sized
  exact ⟨size, checks 34 (by rw [size]; decide), reads⟩

/-- Only elements under known keys matter, in whatever order they are. -/
theorem ofFields?_congr (same : (elements.filter (·.1 ∈ kind.keys)).Perm
    (others.filter (·.1 ∈ kind.keys))) :
    ofFields? kind (.ofList elements) = ofFields? kind (.ofList others) := by
  have field {α : Type} {key : String} {read : Value → Option α} {absent : Option α}
      (known : key ∈ kind.keys) : (Fields.ofList elements).field? key read absent =
        (Fields.ofList others).field? key read absent := Fields.field?_congr known same
  cases kind with
  | archive =>
    rw [ofFields?, ofFields?, ArchiveHeader.ofFields?, ArchiveHeader.ofFields?,
      field (by simp [Kind.keys]), field (by simp [Kind.keys])]
  | collection =>
    rw [ofFields?, ofFields?, CollectionHeader.ofFields?, CollectionHeader.ofFields?,
      field (by simp [Kind.keys]), field (by simp [Kind.keys]), field (by simp [Kind.keys])]
  | entry =>
    rw [ofFields?, ofFields?, CatalogEntry.ofFields?, CatalogEntry.ofFields?,
      field (by simp [Kind.keys]), field (by simp [Kind.keys]), field (by simp [Kind.keys])]

/-- A heading is not read if one of its fields is not. -/
theorem ofFields?_eq_none {key : String} (known : key ∈ kind.keys)
    (unread : ∀ {α : Type} {read : Value → Option α} {absent : Option α},
      (key ∈ kind.required → absent = none) →
        (Fields.ofList elements).field? key read absent = none) :
    ofFields? kind (.ofList elements) = none := by
  cases kind with
  | archive =>
    rcases (by simpa [Kind.keys] using known : key = _ ∨ key = _) with rfl | rfl <;>
      simp [ofFields?, ArchiveHeader.ofFields?, unread]
  | collection =>
    have lacks {α : Type} {read : Value → Option α} {absent : Option α} :
        (Fields.ofList elements).field? key read absent = none :=
      unread fun needed => by simp [Kind.required] at needed
    rcases (by simpa [Kind.keys] using known : key = _ ∨ key = _ ∨ key = _) with rfl | rfl | rfl <;>
      simp [ofFields?, CollectionHeader.ofFields?, lacks]
  | entry =>
    have lacks {α : Type} {read : Value → Option α} {absent : Option α} :
        (Fields.ofList elements).field? key read absent = none :=
      unread fun needed => by simp [Kind.required] at needed
    rcases (by simpa [Kind.keys] using known : key = _ ∨ key = _ ∨ key = _) with rfl | rfl | rfl <;>
      simp [ofFields?, CatalogEntry.ofFields?, lacks]

/-- All fields of a heading, the end mark also where nothing ends. -/
def full : Heading → List (String × Value)
  | .archive header => header.fields.toList
  | .collection header =>
    [("db", .string header.ns.db), ("collection", .string header.ns.collection),
      ("EOF", .boolean header.eof)]
  | .entry e => e.fields.toList

/-- The heading that says nothing in these fields. -/
def without (omitted : List String) : Heading → Heading
  | .archive header => .archive header
  | .collection ⟨⟨db, name⟩, eof⟩ =>
    .collection ⟨⟨if "db" ∈ omitted then "" else db, if "collection" ∈ omitted then "" else name⟩,
      if "EOF" ∈ omitted then false else eof⟩
  | .entry ⟨⟨db, name⟩, metadata⟩ =>
    .entry ⟨⟨if "db" ∈ omitted then "" else db, if "collection" ∈ omitted then "" else name⟩,
      if "metadata" ∈ omitted then "" else metadata⟩

theorem ofFields?_full (h : Heading) {omitted : List String}
    (optional : ∀ key ∈ omitted, key ∉ h.kind.required) :
    ofFields? h.kind (.ofList (h.full.filter (·.1 ∉ omitted))) = some (h.without omitted) := by
  cases h with
  | archive header =>
    have one : "concurrent_collections" ∉ omitted := fun left => by
      simpa [kind, Kind.required] using optional _ left
    have two : "version" ∉ omitted := fun left => by
      simpa [kind, Kind.required] using optional _ left
    have reads := header.ofFields?_fields
    rw [← Fields.ofList_toList header.fields, ArchiveHeader.ofFields?] at reads
    simp only [kind, ofFields?, full, ArchiveHeader.ofFields?, Fields.field?_omit, if_neg one,
      if_neg two, reads, without, Option.map_some]
  | collection header =>
    obtain ⟨⟨db, name⟩, eof⟩ := header
    simp only [kind, ofFields?, full, CollectionHeader.ofFields?, Fields.field?_omit]
    simp [Fields.field?, Fields.ofList, Fields.values, Value.boolean?, without, ← apply_ite some]
  | entry e =>
    obtain ⟨⟨db, name⟩, metadata⟩ := e
    simp only [kind, ofFields?, full, CatalogEntry.ofFields?, Fields.field?_omit]
    simp [Fields.field?, Fields.ofList, Fields.values, without, ← apply_ite some,
      CatalogEntry.fields, Fields.toList]

/-- A document of any well-formed elements, read as a heading. If the elements under known keys are
the fields of a heading in any order, it reads as that heading; where optional ones of them are left
out, as the heading that says nothing there. If a required one is missing, or any of them is there
more than once, it is not read. -/
theorem read_by_keys (h : Heading) (elements : List (String × Value)) (w : Bytes)
    (made : Made elements w) :
    let known := elements.filter (·.1 ∈ h.kind.keys)
    (known.Perm h.fields.toList → ofRecord? h.kind w = some h) ∧
      (∀ omitted, (∀ key ∈ omitted, key ∉ h.kind.required) →
        known.Perm (h.full.filter (·.1 ∉ omitted)) →
        ofRecord? h.kind w = some (h.without omitted)) ∧
      (∀ key ∈ h.kind.required, key ∉ elements.map (·.1) → ofRecord? h.kind w = none) ∧
      (∀ key ∈ h.kind.keys, 2 ≤ (elements.map (·.1)).count key → ofRecord? h.kind w = none) := by
  intro known
  have decodes := Document.made_iff.1 made
  have reads (others : List (String × Value)) (same : known.Perm others) :
      ofRecord? h.kind w = ofFields? h.kind (.ofList others) := by
    have kept : others.filter (·.1 ∈ h.kind.keys) = others :=
      List.filter_eq_self.2 fun e member => (List.mem_filter.1 (same.mem_iff.2 member)).2
    rw [ofRecord?_eq, decodes, Option.bind_some]
    apply ofFields?_congr
    rwa [kept]
  have fails (key : String) (known : key ∈ h.kind.keys)
      (unread : ∀ {α : Type} {read : Value → Option α} {absent : Option α},
        (key ∈ h.kind.required → absent = none) →
          (Fields.ofList elements).field? key read absent = none) : ofRecord? h.kind w = none := by
    rw [ofRecord?_eq, decodes, Option.bind_some, ofFields?_eq_none known unread]
  refine ⟨fun same => ?_, fun omitted optional same => ?_, fun key needed missing => ?_,
    fun key known again => ?_⟩
  · rw [reads _ same, Fields.ofList_toList, ofFields?_fields]
  · rw [reads _ same, ofFields?_full h optional]
  · refine fails key (Kind.keys_of_required needed) fun none => ?_
    rw [Fields.field?_absent missing, none needed]
  · exact fails key known fun _ => Fields.field?_repeated again

/-- A foreign document and a foreign key given twice around the fields of a heading, which are in
another order: the same, without the name, and with the name given twice. -/
theorem read_by_keys_foreign_elements :
    let db : String × Value := ("db", .string "a")
    let name : String × Value := ("collection", .string "b")
    let nested : String × Value := ("x", .nested .document (.cons "db" (.boolean true) .nil))
    let text : String × Value := ("x", .textual .symbol "EOF")
    let record (elements : List (String × Value)) := (Fields.ofList elements).encode
    ofRecord? .collection (record [nested, name, text, db]) =
        some (.collection ⟨⟨"a", "b"⟩, false⟩) ∧
      ofRecord? .collection (record [nested, db, text]) = some (.collection ⟨⟨"a", ""⟩, false⟩) ∧
      ofRecord? .collection (record [name, nested, name, db]) = none := by
  intro db name nested text record
  let h : Heading := .collection ⟨⟨"a", "b"⟩, false⟩
  have plain (key : String) (known : key ∈ ["db", "collection", "x"]) : 0 ∉ Bytes.ofText key := by
    revert key
    decide
  have made (elements : List (String × Value)) (proper : (Fields.ofList elements).Proper)
      (sized : Sized (record elements).length) : Made elements (record elements) :=
    ⟨rfl, proper, sized⟩
  have some := made [nested, name, text, db] (by
    simp [nested, name, text, db, Fields.ofList, Fields.Proper, Value.Proper, Value.string, plain])
    (by decide)
  have fewer := made [nested, db, text] (by
    simp [nested, text, db, Fields.ofList, Fields.Proper, Value.Proper, Value.string, plain])
    (by decide)
  have more := made [name, nested, name, db] (by
    simp [nested, name, db, Fields.ofList, Fields.Proper, Value.Proper, Value.string, plain])
    (by decide)
  refine ⟨?_, ?_, ?_⟩
  · refine (read_by_keys h _ _ some).1 ?_
    simpa [h, nested, name, text, db, kind, Kind.keys, fields, CollectionHeader.fields,
      Fields.toList] using List.Perm.swap ..
  · refine (read_by_keys h _ _ fewer).2.1 ["collection", "EOF"] ?_ ?_
    · simp [h, kind, Kind.required]
    · simp [h, nested, text, db, kind, Kind.keys, full]
  · exact (read_by_keys h _ _ more).2.2.2 "collection" (by decide) (by decide)

end Heading
end DumpArchive
