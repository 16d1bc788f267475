import DumpArchive.Registry
import Mathlib.Data.List.Nodup
import Mathlib.Data.Option.Basic

/-! A registry names each of its namespaces once, never one that has ended, and not more of them
than the cap allows. Every way to change a registry keeps it so. -/
namespace DumpArchive.Registry

variable {α : Type} {r next : Registry α} {ns : Namespace} {a : α}

/-- The namespaces that are served at the moment, oldest first. -/
def keys (r : Registry α) : List Namespace := r.entries.map (·.1)

structure Valid (r : Registry α) : Prop where
  named : ∀ ns ∈ r.keys, ns.isNamed
  distinct : r.keys.Nodup
  apart : ∀ ns ∈ r.keys, ns ∉ r.closed
  once : r.closed.Nodup
  capped : ∀ max ∈ r.cap, r.count ≤ max.toNat

theorem valid_empty (cap : Option UInt64) : (empty cap : Registry α).Valid := by
  constructor <;> simp [empty, keys, count]

/-- A namespace may be entered: it is named, neither in use nor ended, and there is room. -/
structure Admits (r : Registry α) (ns : Namespace) : Prop where
  named : ns.isNamed
  going : r.finished = false
  unused : ns ∉ r.keys
  fresh : ns ∉ r.closed
  room : r.full? = none

def insert (ns : Namespace) (a : α) (r : Registry α) : Registry α :=
  { r with entries := r.entries ++ [(ns, a)] }

@[simp] theorem entries_insert : (r.insert ns a).entries = r.entries ++ [(ns, a)] := rfl

@[simp] theorem keys_insert : (r.insert ns a).keys = r.keys ++ [ns] := by simp [keys]

@[simp] theorem closed_insert : (r.insert ns a).closed = r.closed := rfl

@[simp] theorem finished_insert : (r.insert ns a).finished = r.finished := rfl

theorem add_eq_ok_iff : r.add ns a = .ok next ↔ r.Admits ns ∧ next = r.insert ns a := by
  have found : r.entries.any (·.1 = ns) = true ↔ ns ∈ r.keys := by simp [keys]
  constructor
  · intro added
    simp only [add] at added
    split at added
    · contradiction
    · next named =>
      split at added
      · contradiction
      · next going =>
        split at added
        · contradiction
        · next unused =>
          split at added
          · contradiction
          · next fresh =>
            split at added
            · contradiction
            · next room =>
              exact ⟨⟨by simpa using named, by simpa using going, fun used => unused (found.2 used),
                fresh, room⟩, (Except.ok.inj added).symm⟩
  · rintro ⟨admits, rfl⟩
    have unused : ¬ r.entries.any (·.1 = ns) = true := fun used => admits.unused (found.1 used)
    unfold add
    rw [if_neg (by simp [admits.named]), if_neg (by simp [admits.going]), if_neg unused,
      if_neg admits.fresh, admits.room]
    rfl

/-- Namespaces that may all be entered, one after another. -/
structure Welcomes (r : Registry α) (namespaces : List Namespace) : Prop where
  named : ∀ ns ∈ namespaces, ns.isNamed
  distinct : namespaces.Nodup
  unused : ∀ ns ∈ namespaces, ns ∉ r.keys
  fresh : r.closed = []
  going : r.finished = false
  uncapped : r.cap = none

theorem welcomes_empty {namespaces : List Namespace} {cap : Option UInt64}
    (named : ∀ ns ∈ namespaces, ns.isNamed) (distinct : namespaces.Nodup) (uncapped : cap = none) :
    (empty cap : Registry α).Welcomes namespaces :=
  ⟨named, distinct, by simp [empty, keys], rfl, rfl, uncapped⟩

theorem Welcomes.admits {rest : List Namespace} (welcomes : r.Welcomes (ns :: rest)) :
    r.Admits ns where
  named := welcomes.named ns (List.mem_cons_self ..)
  going := welcomes.going
  unused := welcomes.unused ns (List.mem_cons_self ..)
  fresh := by simp [welcomes.fresh]
  room := by simp [full?, welcomes.uncapped]

theorem Welcomes.insert {rest : List Namespace} (welcomes : r.Welcomes (ns :: rest)) :
    (r.insert ns a).Welcomes rest := by
  obtain ⟨named, distinct, unused, fresh, going, uncapped⟩ := welcomes
  obtain ⟨apart, distinct⟩ := List.nodup_cons.1 distinct
  refine ⟨(List.forall_mem_cons.1 named).2, distinct, ?_, fresh, going, uncapped⟩
  intro other member
  rw [keys_insert, List.mem_append, List.mem_singleton]
  rintro (old | rfl)
  · exact unused other (List.mem_cons_of_mem _ member) old
  · exact apart member

theorem Valid.add (valid : r.Valid) (admits : r.Admits ns) : (r.insert ns a).Valid := by
  refine ⟨?_, ?_, ?_, valid.once, ?_⟩
  · simpa [or_imp, forall_and, admits.named] using valid.named
  · simpa [List.nodup_append] using ⟨valid.distinct, fun k member same =>
      admits.unused (same ▸ member)⟩
  · simpa [or_imp, forall_and, admits.fresh] using valid.apart
  · intro max cap
    have cap : r.cap = some max := cap
    have room : ¬ max.toNat ≤ r.count := by simpa [full?, cap] using admits.room
    simp only [count, entries_insert, List.length_append, List.length_singleton] at room ⊢
    omega

theorem keys_close (ns : Namespace) (r : Registry α) :
    (r.close ns).keys = r.keys.filter (· ≠ ns) := by
  simp only [keys, close, List.filter_map]
  rfl

theorem Valid.close (valid : r.Valid) (member : ns ∈ r.keys) : (r.close ns).Valid := by
  refine ⟨?_, ?_, ?_, List.nodup_cons.2 ⟨valid.apart ns member, valid.once⟩, ?_⟩
  · intro other left
    rw [keys_close] at left
    exact valid.named other (List.mem_of_mem_filter left)
  · rw [keys_close]
    exact valid.distinct.filter _
  · intro other left
    rw [keys_close, List.mem_filter] at left
    simpa [Registry.close, List.mem_cons] using
      ⟨by simpa using left.2, valid.apart other left.1⟩
  · intro max cap
    exact Nat.le_trans (List.length_filter_le ..) (valid.capped max cap)

theorem Valid.finish (valid : r.Valid) : r.finish.Valid :=
  ⟨valid.named, valid.distinct, valid.apart, valid.once, valid.capped⟩

theorem Valid.abandon (valid : r.Valid) : r.abandon.Valid :=
  ⟨by simp [keys, Registry.abandon], by simp [keys, Registry.abandon],
    by simp [keys, Registry.abandon], valid.once, fun max cap => Nat.zero_le _⟩

/-- The first entry of a namespace is its only one. -/
theorem Valid.find?_eq_some_iff (valid : r.Valid) : r.find? ns = some a ↔ (ns, a) ∈ r.entries := by
  have unique : r.entries.Pairwise fun e f => e.1 ≠ f.1 := List.pairwise_map.1 valid.distinct
  constructor
  · intro found
    obtain ⟨⟨key, value⟩, first, rfl⟩ := Option.map_eq_some_iff.1 found
    have same : key = ns := by simpa using List.find?_some first
    exact same ▸ List.mem_of_find?_eq_some first
  · intro member
    obtain ⟨front, back, split⟩ := List.append_of_mem member
    rw [split, List.pairwise_append] at unique
    have none : front.find? (fun e => decide (e.1 = ns)) = none := by
      apply List.find?_eq_none.2
      intro e earlier
      simpa using unique.2.2 e earlier (ns, a) (List.mem_cons_self ..)
    simp [find?, split, List.find?_append, none]

end DumpArchive.Registry
