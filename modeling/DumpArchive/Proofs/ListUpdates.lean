import Mathlib.Algebra.GroupWithZero.Nat
import Mathlib.Data.List.Perm.Basic
import Mathlib.Data.List.TakeDrop
import Mathlib.Data.List.TakeWhile

/-! Lists in which what stands at one place is changed, as the handles, receivers and workers of a
system are by the turn of one of them. -/
namespace DumpArchive

variable {α β : Type} {list : List α} {index : Nat} {before : α}

theorem set_same (found : list[index]? = some before) : list.set index before = list := by
  obtain ⟨bound, here⟩ := List.getElem?_eq_some_iff.1 found
  rw [← here]
  exact List.set_getElem_self bound

/-- Who stands in a changed list is the new one at its place, or another at an old place. -/
theorem getElem?_set_cases {after other : α} {place : Nat}
    (there : (list.set index after)[place]? = some other) :
    place = index ∧ other = after ∨ place ≠ index ∧ list[place]? = some other := by
  rw [List.getElem?_set] at there
  split at there
  · next same =>
    split at there
    · exact .inl ⟨same.symm, (Option.some.inj there).symm⟩
    · contradiction
  · next apart => exact .inr ⟨Ne.symm apart, there⟩

/-- Somebody is still there unless a change has taken that one away. -/
theorem exists_mem_set {P : α → Prop} {after : α} (found : list[index]? = some before)
    (kept : P before → P after) (somebody : ∃ a ∈ list, P a) :
    ∃ a ∈ list.set index after, P a := by
  obtain ⟨a, member, holds⟩ := somebody
  obtain ⟨place, there⟩ := List.mem_iff_getElem?.1 member
  by_cases here : place = index
  · subst here
    obtain rfl := Option.some.inj (found.symm.trans there)
    exact ⟨after, List.mem_set (List.getElem?_eq_some_iff.1 found).1 after, kept holds⟩
  · have still : (list.set index after)[place]? = some a :=
      (List.getElem?_set_ne (Ne.symm here)).trans there
    exact ⟨a, List.mem_of_getElem? still, holds⟩

/-- A change does not show in what stays the same at its place. -/
theorem map_set_same {f : α → β} {after : α} (found : list[index]? = some before)
    (same : f after = f before) : (list.set index after).map f = list.map f := by
  rw [List.map_set, same]
  exact set_same (by simp [found])

/-- Two lists that go together still do when both are changed at one place. -/
theorem forall₂_set {R : α → β → Prop} {left : List α} {right : List β} {a : α} {b : β}
    (related : List.Forall₂ R left right) (new : R a b) (index : Nat) :
    List.Forall₂ R (left.set index a) (right.set index b) := by
  induction related generalizing index with
  | nil => exact .nil
  | cons first rest ih =>
    cases index with
    | zero => exact .cons new rest
    | succ index => exact .cons first (ih index)

/-- What one place gives and what all of them give, before and after a change. -/
theorem perm_flatMap_set (f : α → List β) (after : α) (found : list[index]? = some before) :
    (f before ++ (list.set index after).flatMap f).Perm (f after ++ list.flatMap f) := by
  obtain ⟨bound, here⟩ := List.getElem?_eq_some_iff.1 found
  have split : list = list.take index ++ before :: list.drop (index + 1) := by
    rw [← here, List.getElem_cons_drop, List.take_append_drop]
  have changed : list.set index after = list.take index ++ after :: list.drop (index + 1) := by
    rw [List.set_eq_take_append_cons_drop, if_pos bound]
  generalize list.take index = front at split changed
  generalize list.drop (index + 1) = back at split changed
  rw [changed, split]
  simp only [List.flatMap_append, List.flatMap_cons]
  calc f before ++ (front.flatMap f ++ (f after ++ back.flatMap f))
    _ |>.Perm (front.flatMap f ++ (f before ++ (f after ++ back.flatMap f))) :=
      List.perm_append_comm_assoc ..
    _ |>.Perm (front.flatMap f ++ (f after ++ (f before ++ back.flatMap f))) :=
      (List.perm_append_comm_assoc ..).append_left _
    _ |>.Perm (f after ++ (front.flatMap f ++ (f before ++ back.flatMap f))) :=
      List.perm_append_comm_assoc ..

/-- What one place trades in is all that changes. -/
theorem perm_trade {f : α → List β} {after : α} {given taken : List β}
    (found : list[index]? = some before) (trade : (given ++ f after).Perm (taken ++ f before)) :
    (given ++ (list.set index after).flatMap f).Perm (taken ++ list.flatMap f) := by
  have whole := perm_flatMap_set f after found
  classical
  rw [List.perm_iff_count] at trade whole ⊢
  intro b
  have traded := trade b
  have changed := whole b
  simp only [List.count_append] at traded changed ⊢
  omega

theorem filter_eq_nil_of_key [DecidableEq β] {f : α → β} {b : β} (absent : b ∉ list.map f) :
    list.filter (f · = b) = [] := by
  apply List.filter_eq_nil_iff.2
  intro a member same
  exact absent (List.mem_map.2 ⟨a, member, by simpa using same⟩)

/-- Where a key is given once, only one has it. -/
theorem filter_eq_singleton [DecidableEq β] {f : α → β} {a : α} (distinct : (list.map f).Nodup)
    (member : a ∈ list) : list.filter (f · = f a) = [a] := by
  obtain ⟨front, back, rfl⟩ := List.append_of_mem member
  rw [List.map_append, List.nodup_append, List.map_cons, List.nodup_cons] at distinct
  obtain ⟨-, ⟨after, -⟩, before⟩ := distinct
  have none : front.filter (f · = f a) = [] := by
    apply List.filter_eq_nil_iff.2
    intro b earlier
    simpa using before (f b) (List.mem_map_of_mem earlier) (f a) (List.mem_cons_self ..)
  have nothing : back.filter (f · = f a) = [] := filter_eq_nil_of_key after
  simp [none, nothing]

/-- A list is cut at the first place that has `a`. -/
theorem span_ne_eq_iff [DecidableEq α] {front back : List α} {a b : α} :
    list.span (· ≠ a) = (front, b :: back) ↔ list = front ++ b :: back ∧ b = a ∧ a ∉ front := by
  rw [List.span_eq_takeWhile_dropWhile, Prod.mk.injEq]
  constructor
  · rintro ⟨rfl, tail⟩
    have stops := List.head?_dropWhile_not (fun x : α => decide (x ≠ a)) list
    rw [tail] at stops
    refine ⟨?_, by simpa using stops, fun early => by simpa using List.mem_takeWhile_imp early⟩
    rw [← tail]
    exact List.takeWhile_append_dropWhile.symm
  · rintro ⟨rfl, rfl, apart⟩
    have long : ∀ x ∈ front, decide (x ≠ b) = true := fun x member =>
      decide_eq_true (ne_of_mem_of_not_mem member apart)
    rw [List.takeWhile_append_of_pos long, List.dropWhile_append_of_pos long]
    simp

theorem sum_set (cost : α → Nat) (after : α) (found : list[index]? = some before) :
    cost before + ((list.set index after).map cost).sum = cost after + (list.map cost).sum := by
  have whole := (perm_flatMap_set (fun a => [cost a]) after found).sum_nat
  simpa [← List.map_eq_flatMap] using whole

end DumpArchive
