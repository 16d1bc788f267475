import DumpArchive.Proofs.Wire

/-! Blocks by namespace. Where the namespaces of a stream follow one another, their records tell
which blocks it is made of. -/
namespace DumpArchive

section Groups

variable {α κ : Type} [DecidableEq κ]

theorem filter_append_filter {p : α → Bool} {l : List α}
    (sorted : l.Pairwise fun a b => p b → p a) : l.filter p ++ l.filter (fun a => !p a) = l := by
  induction l with
  | nil => rfl
  | cons a rest ih =>
    obtain ⟨first, later⟩ := List.pairwise_cons.1 sorted
    cases holds : p a with
    | true => simpa [holds] using ih later
    | false =>
      have others : ∀ b ∈ rest, p b = false := by simpa [holds] using first
      have none : rest.filter p = [] := by simpa using others
      have all : rest.filter (fun b => !p b) = rest := by simpa using others
      simp [holds, none, all]

/-- A list whose keys come in the order of `keys` is put together from its groups. -/
theorem flatMap_filter_eq (key : α → κ) {keys : List κ} {l : List α} (distinct : keys.Nodup)
    (known : ∀ a ∈ l, key a ∈ keys)
    (sorted : l.Pairwise fun a b => keys.idxOf (key a) ≤ keys.idxOf (key b)) :
    (keys.flatMap fun k => l.filter (key · = k)) = l := by
  induction keys generalizing l with
  | nil =>
    have nothing : l = [] := List.eq_nil_iff_forall_not_mem.2 fun a member => by
      simpa using known a member
    simp [nothing]
  | cons k rest ih =>
    obtain ⟨fresh, distinct⟩ := List.nodup_cons.1 distinct
    have front : l.Pairwise fun a b => decide (key b = k) → decide (key a = k) := by
      refine sorted.imp fun {a b} before here => ?_
      obtain rfl := of_decide_eq_true here
      by_contra other
      have apart : ¬ key b = key a := fun same => other (by simp [same])
      simp [apart] at before
    have others : ∀ a ∈ l.filter fun a => !decide (key a = k), key a ∈ rest := by
      intro a member
      obtain ⟨here, apart⟩ := List.mem_filter.1 member
      exact (List.mem_cons.1 (known a here)).resolve_left (by simpa using apart)
    have still : (l.filter fun a => !decide (key a = k)).Pairwise
        fun a b => rest.idxOf (key a) ≤ rest.idxOf (key b) := by
      refine (sorted.sublist List.filter_sublist).imp_of_mem fun {a b} first second before => ?_
      have apart {c : α} (member : c ∈ l.filter fun a => !decide (key a = k)) : ¬ k = key c :=
        fun same => by simp [same] at member
      have left := apart first
      have right := apart second
      simpa [List.idxOf_cons, left, right] using before
    have groups := ih distinct others still
    have same : ∀ k' ∈ rest, (l.filter fun a => !decide (key a = k)).filter (key · = k') =
        l.filter (key · = k') := by
      intro k' member
      rw [List.filter_filter]
      apply List.filter_congr
      intro a _
      by_cases here : key a = k'
      · have apart : ¬ key a = k := fun also => fresh (also ▸ here ▸ member)
        simp [here, here ▸ apart]
      · simp [here]
    rw [List.flatMap_cons, ← List.flatMap_congr same, groups]
    exact filter_append_filter front

end Groups

namespace Block

variable {b : Block}

theorem recordsOf_filter (ns : Namespace) (blocks : List Block) :
    recordsOf ns (blocks.filter (·.header.ns = ns)) = recordsOf ns blocks := by
  induction blocks with
  | nil => rfl
  | cons b rest ih => by_cases here : b.header.ns = ns <;> simp [here, ih]

/-- All of a namespace: its records, if it has any, and its end. -/
def page (ns : Namespace) (records : List Bytes) : List Block :=
  (if records = [] then [] else [ofHeader ⟨ns, false⟩ records]) ++ [ofHeader ⟨ns, true⟩ []]

theorem eq_ofHeader (plain : b.lead = b.header.record) : b = ofHeader b.header b.records := by
  cases b
  simp_all [ofHeader]

end Block

namespace Wire

open Block (page recordsOf)

variable {w : Wire} {ns : Namespace} {namespaces : List Namespace}

/-- Blocks of one namespace that stand next to each other, the last of which ends it. -/
theorem Tidy.eq_page (tidy : w.Tidy) (plain : ∀ b ∈ w.blocks, b.lead = b.header.record)
    (group : List Block) (stand : group <:+: w.blocks) (alike : ∀ b ∈ group, b.header.ns = ns)
    (ended : ∃ b ∈ group, b.header.eof) : group = page ns (recordsOf ns group) := by
  have filled : ∀ b ∈ group, b.header.eof ↔ b.records = [] :=
    fun b member => tidy.filled b (stand.subset member)
  have switches := tidy.switches.infix stand
  have last := tidy.last.sublist stand.sublist
  have shape {b : Block} {eof : Bool} (member : b ∈ group) (same : b.header.eof = eof) :
      b = .ofHeader ⟨ns, eof⟩ b.records := by
    have header : b.header = ⟨ns, eof⟩ := by
      rw [← alike b member, ← same]
    exact header ▸ Block.eq_ofHeader (plain b (stand.subset member))
  match group with
  | [] => simp at ended
  | [e] =>
    have ends : e.header.eof = true := by simpa using ended
    have nothing := (filled e (by simp)).1 ends
    have one := shape (by simp) ends
    rw [nothing] at one
    rw [one]
    simp [page]
  | b :: c :: rest =>
    have goes : b.header.eof = false := by
      by_contra ends
      have apart := (List.pairwise_cons.1 last).1 c (List.mem_cons_self ..) (by simpa using ends)
      exact apart ((alike b (by simp)).trans (alike c (by simp)).symm)
    have ends : c.header.eof = true := by
      by_contra going
      have apart := (List.isChain_cons_cons.1 switches).1 (by simp [goes]) going
      exact apart ((alike b (by simp)).trans (alike c (by simp)).symm)
    obtain rfl : rest = [] := by
      apply List.eq_nil_iff_forall_not_mem.2
      intro d member
      have apart := (List.pairwise_cons.1 (List.pairwise_cons.1 last).2).1 d member ends
      exact apart ((alike c (by simp)).trans (alike d (by simp [member])).symm)
    have something : b.records ≠ [] := fun nothing => by
      have past := (filled b (by simp)).2 nothing
      simp [goes] at past
    have nothing := (filled c (by simp)).1 ends
    have first := shape (b := b) (by simp) goes
    have second := shape (b := c) (by simp) ends
    rw [nothing] at second
    rw [first, second]
    simp [page, something]

/-- The blocks of namespaces that follow one another. -/
theorem Tidy.blocks_eq (tidy : w.Tidy) (plain : ∀ b ∈ w.blocks, b.lead = b.header.record)
    (distinct : namespaces.Nodup) (sequence : Block.Sequence namespaces w.blocks)
    (sorted : w.blocks.Pairwise fun a b =>
      namespaces.idxOf a.header.ns ≤ namespaces.idxOf b.header.ns) :
    w.blocks = namespaces.flatMap fun ns => page ns (recordsOf ns w.blocks) := by
  have groups := flatMap_filter_eq (fun b : Block => b.header.ns) distinct sequence.known sorted
  rw [← groups]
  apply List.flatMap_congr
  intro ns member
  rw [groups]
  have stand : w.blocks.filter (·.header.ns = ns) <:+: w.blocks := by
    obtain ⟨front, back, split⟩ := List.append_of_mem member
    rw [split, List.flatMap_append, List.flatMap_cons] at groups
    exact ⟨_, _, by rw [List.append_assoc]; exact groups⟩
  rw [← Block.recordsOf_filter]
  apply tidy.eq_page plain _ stand
  · intro b here
    simpa using (List.mem_filter.1 here).2
  · obtain ⟨b, here, ends, same⟩ := sequence.ended ns member
    exact ⟨b, List.mem_filter.2 ⟨here, by simp [same]⟩, ends⟩

end Wire
end DumpArchive
