import DumpArchive.Catalog
import DumpArchive.Proofs.ListUpdates
import Mathlib.Data.List.Induction
import Mathlib.Data.List.Nodup

/-! The entries of a catalog by their databases: each group has those of its database, in the order
of the stream, and an entry is found under its namespace. -/
namespace DumpArchive

section Repeated

variable {α : Type} [DecidableEq α]

/-- What is added at the end stays unless it was there before. -/
theorem eraseDups_concat (front : List α) (a : α) :
    (front ++ [a]).eraseDups =
      if a ∈ front then front.eraseDups else front.eraseDups ++ [a] := by
  rw [List.eraseDups_append]
  by_cases again : a ∈ front
  · simp [List.removeAll, again]
  · simp [List.removeAll, again, List.eraseDups_cons]

theorem nodup_eraseDups (list : List α) : list.eraseDups.Nodup := by
  induction list using List.reverseRecOn with
  | nil => simp
  | append_singleton front a ih =>
    rw [eraseDups_concat]
    split
    · exact ih
    · next new =>
      rw [← List.mem_eraseDups] at new
      exact ih.append (List.nodup_singleton a) (List.disjoint_singleton.2 new)

end Repeated

namespace Catalog

variable {db : String} {c : Catalog} {e : CatalogEntry}

/-- The entries of the group of a database. -/
def entriesOf (db : String) (groups : List Group) : List CatalogEntry :=
  match groups.find? (·.db = db) with
  | some g => g.entries
  | none => []

theorem entriesOf_cons (db : String) (g : Group) (rest : List Group) :
    entriesOf db (g :: rest) = if g.db = db then g.entries else entriesOf db rest := by
  by_cases same : g.db = db <;> simp [entriesOf, same]

theorem entriesOf_group (db : String) (e : CatalogEntry) (groups : List Group) :
    entriesOf db (group e groups) =
      entriesOf db groups ++ if e.ns.db = db then [e] else [] := by
  induction groups with
  | nil => by_cases same : e.ns.db = db <;> simp [group, entriesOf, same]
  | cons g rest ih =>
    rw [group]
    split
    · next known =>
      rw [entriesOf_cons, entriesOf_cons, known]
      by_cases same : e.ns.db = db <;> simp [same]
    · next other =>
      rw [entriesOf_cons, entriesOf_cons, ih]
      by_cases same : g.db = db
      · have apart : e.ns.db ≠ db := fun also => other (same.trans also.symm)
        simp [same, apart]
      · simp [same]

theorem entriesOf_foldl (db : String) (entries : List CatalogEntry) (groups : List Group) :
    entriesOf db (entries.foldl (fun groups e => group e groups) groups) =
      entriesOf db groups ++ entries.filter (·.ns.db = db) := by
  induction entries generalizing groups with
  | nil => simp
  | cons e rest ih =>
    rw [List.foldl_cons, ih, entriesOf_group]
    by_cases same : e.ns.db = db <;> simp [same]

theorem collectionsIn_eq (c : Catalog) (db : String) :
    c.collectionsIn db = c.entries.filter (·.ns.db = db) :=
  entriesOf_foldl db c.entries []

/-- An entry of a new database adds a group at the end. -/
theorem databases_group (e : CatalogEntry) (groups : List Group) :
    (group e groups).map (·.db) =
      if e.ns.db ∈ groups.map (·.db) then groups.map (·.db) else groups.map (·.db) ++ [e.ns.db] := by
  induction groups with
  | nil => simp [group]
  | cons g rest ih =>
    rw [group]
    split
    · next known => simp [known]
    · next other =>
      rw [List.map_cons, ih]
      have apart : e.ns.db ≠ g.db := fun same => other same.symm
      by_cases known : e.ns.db ∈ rest.map (·.db)
      · rw [if_pos known, if_pos (by simp [known])]
        rfl
      · rw [if_neg known, if_neg (by simp [apart, known])]
        rfl

/-- The databases are listed in the order of their first entries. -/
theorem databases_eq (c : Catalog) : c.databases = (c.entries.map (·.ns.db)).eraseDups := by
  rw [databases, groups]
  induction c.entries using List.reverseRecOn with
  | nil => rfl
  | append_singleton front e ih =>
    rw [List.foldl_concat, databases_group, ih, List.map_append, List.map_singleton,
      eraseDups_concat]
    simp only [List.mem_eraseDups]

/-- By their databases the entries are listed once each. -/
theorem perm_collectionsIn (c : Catalog) :
    (c.databases.flatMap c.collectionsIn).Perm c.entries := by
  have distinct : c.entries.Nodup := List.Nodup.of_map _ c.distinct
  have apart : c.databases.Nodup := c.databases_eq ▸ nodup_eraseDups _
  refine (List.perm_ext_iff_of_nodup ?_ distinct).2 fun e => ?_
  · refine List.nodup_flatMap.2 ⟨fun db _ => ?_, apart.imp fun other => ?_⟩
    · rw [collectionsIn_eq]
      exact distinct.filter _
    · intro e first second
      simp only [collectionsIn_eq, List.mem_filter, decide_eq_true_eq] at first second
      exact other (first.2.symm.trans second.2)
  · simp only [List.mem_flatMap, collectionsIn_eq, List.mem_filter]
    constructor
    · rintro ⟨db, -, member, -⟩
      exact member
    · intro member
      refine ⟨e.ns.db, ?_, member, by simp⟩
      rw [databases_eq, List.mem_eraseDups]
      exact List.mem_map_of_mem member

/-- The entry of a namespace is found. -/
theorem entryFor?_of_mem (member : e ∈ c.entries) : c.entryFor? e.ns = some e := by
  have both : (fun other : CatalogEntry => decide (other.ns = e.ns)) = fun other =>
      decide (other.ns.collection = e.ns.collection) && decide (other.ns.db = e.ns.db) := by
    funext other
    obtain ⟨⟨db, collection⟩, metadata⟩ := other
    obtain ⟨⟨db', collection'⟩, metadata'⟩ := e
    simp [Bool.and_comm]
  have only := filter_eq_singleton c.distinct member
  rw [both, ← List.filter_filter] at only
  rw [entryFor?, collectionsIn_eq, ← List.head?_filter, only, List.head?_cons]

theorem entryFor?_eq_some_iff {ns : Namespace} :
    c.entryFor? ns = some e ↔ e ∈ c.entries ∧ e.ns = ns := by
  constructor
  · intro found
    have member := List.mem_of_find?_eq_some found
    rw [collectionsIn_eq, List.mem_filter] at member
    have collection := List.find?_some found
    obtain ⟨⟨_, _⟩, _⟩ := e
    obtain ⟨_, _⟩ := ns
    simp_all
  · rintro ⟨member, rfl⟩
    exact entryFor?_of_mem member

theorem entryFor?_eq_none_iff {ns : Namespace} : c.entryFor? ns = none ↔ ns ∉ c.namespaces := by
  constructor
  · rintro missing member
    obtain ⟨e, entry, rfl⟩ := List.mem_map.1 member
    simp [entryFor?_of_mem entry] at missing
  · intro missing
    cases found : c.entryFor? ns with
    | none => rfl
    | some e =>
      obtain ⟨entry, rfl⟩ := entryFor?_eq_some_iff.1 found
      exact absurd (List.mem_map_of_mem entry) missing

/-- No two entries have a namespace in common. -/
theorem entry_inj {other : CatalogEntry} (first : e ∈ c.entries) (second : other ∈ c.entries)
    (same : e.ns = other.ns) : e = other := by
  have found := entryFor?_of_mem first
  rw [same, entryFor?_of_mem second] at found
  exact (Option.some.inj found).symm

end Catalog
end DumpArchive
