import DumpArchive.Proofs.Catalogs
import DumpArchive.Proofs.Groups

/-! Which lists of entries make a catalog, and what its index then says: each look-up comes to a
filter of the list. Namespaces are told apart by their parts, not by their text form. -/
namespace DumpArchive

namespace Namespace

variable {seen list : List Namespace} {ns : Namespace}

/-- The list up to what is reported has nothing twice and nothing that was seen before. -/
theorem of_firstRepeat (found : firstRepeat seen list = some ns) :
    ∃ front back, list = front ++ ns :: back ∧ front.Nodup ∧ (∀ other ∈ front, other ∉ seen) ∧
      (ns ∈ front ∨ ns ∈ seen) := by
  fun_induction firstRepeat seen list with
  | case1 => contradiction
  | case2 seen _ rest again =>
    obtain rfl := Option.some.inj found
    exact ⟨[], rest, rfl, List.nodup_nil, by simp, .inr again⟩
  | case3 seen first rest fresh ih =>
    obtain ⟨front, back, rfl, distinct, apart, again⟩ := ih found
    have new : first ∉ front := fun old => apart first old (List.mem_cons_self ..)
    refine ⟨first :: front, back, rfl, List.nodup_cons.2 ⟨new, distinct⟩, ?_, ?_⟩
    · refine List.forall_mem_cons.2 ⟨fresh, fun other member old => ?_⟩
      exact apart other member (List.mem_cons_of_mem _ old)
    · rw [List.mem_cons] at again ⊢
      tauto

/-- What is reported stands at the first place that repeats an earlier one. -/
theorem firstRepeat_eq_some_iff : firstRepeat [] list = some ns ↔
    ∃ front back, list = front ++ ns :: back ∧ front.Nodup ∧ ns ∈ front := by
  constructor
  · intro found
    obtain ⟨front, back, whole, distinct, -, again⟩ := of_firstRepeat found
    exact ⟨front, back, whole, distinct, by simpa using again⟩
  · rintro ⟨front, back, rfl, distinct, again⟩
    rw [Catalog.firstRepeat_append distinct (by simp), firstRepeat, if_pos (by simpa using again)]

end Namespace

namespace Catalog

variable {header : ArchiveHeader} {entries : List CatalogEntry} {ns : Namespace}

theorem ofEntries_eq_error : ofEntries header entries = .error ns ↔
    Namespace.firstRepeat [] (entries.map (·.ns)) = some ns := by
  unfold ofEntries
  split <;> simp_all

/-- A refusal is about the first entry that repeats the namespace of an earlier one. -/
theorem ofEntries_refused : ofEntries header entries = .error ns ↔
    ∃ earlier e later, entries = earlier ++ e :: later ∧ (earlier.map (·.ns)).Nodup ∧
      (∃ old ∈ earlier, old.ns = e.ns) ∧ e.ns = ns := by
  rw [ofEntries_eq_error, Namespace.firstRepeat_eq_some_iff]
  constructor
  · rintro ⟨front, back, whole, distinct, again⟩
    obtain ⟨earlier, rest, rfl, rfl, tail⟩ := List.map_eq_append_iff.1 whole
    obtain ⟨e, later, rfl, rfl, rfl⟩ := List.map_eq_cons_iff.1 tail
    exact ⟨earlier, e, later, rfl, distinct, List.mem_map.1 again, rfl⟩
  · rintro ⟨earlier, e, later, rfl, distinct, again, rfl⟩
    exact ⟨_, later.map (·.ns), by simp, distinct, List.mem_map.2 again⟩

/-- Two entries for one namespace are refused, and nothing else is. -/
theorem ofEntries_refuses : (∃ ns, ofEntries header entries = .error ns) ↔
    ∃ (i j : Nat) (e other : CatalogEntry),
      i < j ∧ entries[i]? = some e ∧ entries[j]? = some other ∧ e.ns = other.ns := by
  constructor
  · rintro ⟨ns, refused⟩
    obtain ⟨earlier, e, later, rfl, -, ⟨old, member, same⟩, -⟩ := ofEntries_refused.1 refused
    obtain ⟨i, there⟩ := List.mem_iff_getElem?.1 member
    have bound := (List.getElem?_eq_some_iff.1 there).1
    refine ⟨i, earlier.length, old, e, bound, ?_, by simp, same⟩
    rw [List.getElem?_append_left bound, there]
  · rintro ⟨i, j, e, other, before, first, second, same⟩
    cases made : ofEntries header entries with
    | error ns => exact ⟨ns, rfl⟩
    | ok c =>
      have distinct := c.distinct
      rw [(of_ofEntries made).2, List.nodup_iff_getElem?_ne_getElem?] at distinct
      refine absurd ?_ (distinct i j before ?_)
      · simp [first, second, same]
      · simpa using (List.getElem?_eq_some_iff.1 second).1

/-- What the index of a catalog says, by its entries. -/
structure Indexed (c : Catalog) : Prop where
  databases : c.databases = (c.entries.map (·.ns.db)).eraseDups
  collections : ∀ db, c.collectionsIn db = c.entries.filter (·.ns.db = db)
  listed : (c.databases.flatMap c.collectionsIn).Perm c.entries
  once : c.entries.Nodup
  found : ∀ ns, (c.entryFor? ns).toList = c.entries.filter (·.ns = ns)
  missing : ∀ ns, c.entryFor? ns = none ↔ ∀ e ∈ c.entries, e.ns ≠ ns

theorem toList_entryFor? (c : Catalog) (ns : Namespace) :
    (c.entryFor? ns).toList = c.entries.filter (·.ns = ns) := by
  cases found : c.entryFor? ns with
  | none => exact (filter_eq_nil_of_key (entryFor?_eq_none_iff.1 found)).symm
  | some e =>
    obtain ⟨member, rfl⟩ := entryFor?_eq_some_iff.1 found
    exact (filter_eq_singleton c.distinct member).symm

theorem indexed (c : Catalog) : c.Indexed where
  databases := c.databases_eq
  collections := c.collectionsIn_eq
  listed := c.perm_collectionsIn
  once := List.Nodup.of_map _ c.distinct
  found := c.toList_entryFor?
  missing ns := by
    rw [entryFor?_eq_none_iff, namespaces, List.mem_map]
    push Not
    rfl

/-- A list of entries is refused for the first that repeats an earlier one; any other list makes a
catalog, whose index tells of each database and of each namespace just the entries that it has. -/
theorem ofEntries_indexed (header : ArchiveHeader) (entries : List CatalogEntry) :
    (∀ ns, ofEntries header entries = .error ns ↔
      ∃ earlier e later, entries = earlier ++ e :: later ∧ (earlier.map (·.ns)).Nodup ∧
        (∃ old ∈ earlier, old.ns = e.ns) ∧ e.ns = ns) ∧
    ((∃ ns, ofEntries header entries = .error ns) ↔
      ∃ (i j : Nat) (e other : CatalogEntry),
        i < j ∧ entries[i]? = some e ∧ entries[j]? = some other ∧ e.ns = other.ns) ∧
    ((entries.map (·.ns)).Nodup → ∃ c, ofEntries header entries = .ok c ∧
      c.header = header ∧ c.entries = entries ∧ c.Indexed) :=
  ⟨fun _ => ofEntries_refused, ofEntries_refuses, fun distinct =>
    ⟨_, ofEntries_eq distinct, rfl, rfl, indexed _⟩⟩

/-- Two namespaces with one text form have an entry each. -/
theorem ofEntries_indexed_same_text :
    let first : CatalogEntry := ⟨⟨"a.b", "c"⟩, "1"⟩
    let second : CatalogEntry := ⟨⟨"a", "b.c"⟩, "2"⟩
    let third : CatalogEntry := ⟨⟨"a.b", "d"⟩, "3"⟩
    first.ns.shown = second.ns.shown ∧
      ([first, second, third].map (·.ns)).Nodup ∧
      ∃ c, ofEntries (.current 1) [first, second, third] = .ok c ∧
        c.databases = ["a.b", "a"] ∧ c.collectionsIn "a.b" = [first, third] ∧
        (c.entryFor? first.ns).toList = [first] ∧ (c.entryFor? second.ns).toList = [second] ∧
        c.entryFor? ⟨"a", "b"⟩ = none := by
  intro first second third
  have distinct : ([first, second, third].map (·.ns)).Nodup := by decide
  obtain ⟨c, made, -, filled, indexed⟩ :=
    (ofEntries_indexed (.current 1) [first, second, third]).2.2 distinct
  refine ⟨by decide, distinct, c, made, ?_, ?_, ?_, ?_, ?_⟩
  · rw [indexed.databases, filled]
    decide
  · rw [indexed.collections, filled]
    decide
  · rw [indexed.found, filled]
    decide
  · rw [indexed.found, filled]
    decide
  · rw [indexed.missing, filled]
    decide

end Catalog
end DumpArchive
