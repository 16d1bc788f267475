import DumpArchive.Json.Check
import DumpArchive.Text.Space
import Mathlib.Data.List.DropRight
import Mathlib.Data.List.TakeDrop
import Mathlib.Data.List.TakeWhile

/-! Texts without the white space around them. A JSON value begins and ends in a character that is
no white space, so what is accepted has only the blanks of JSON around it and is accepted without
them. -/
namespace DumpArchive

namespace Text

variable {p q : Char → Bool} {s inner : List Char}

/-- What is left of some characters without those of one kind at both ends. -/
structure Bare (p : Char → Bool) (s inner : List Char) : Prop where
  split : ∃ front back, s = front ++ inner ++ back ∧ ∀ c ∈ front ++ back, p c
  first : ∀ c ∈ inner.head?, p c = false
  last : ∀ c ∈ inner.getLast?, p c = false

theorem bare_dropWhile (p : Char → Bool) (s : List Char) :
    Bare p s ((s.dropWhile p).rdropWhile p) := by
  have front := List.takeWhile_append_dropWhile (p := p) (l := s)
  have back := List.rdropWhile_append_rtakeWhile (p := p) (l := s.dropWhile p)
  refine ⟨⟨s.takeWhile p, (s.dropWhile p).rtakeWhile p, ?_, ?_⟩, ?_, ?_⟩
  · rw [List.append_assoc, back, front]
  · intro c member
    rcases List.mem_append.1 member with early | late
    · exact List.mem_takeWhile_imp early
    · exact List.mem_rtakeWhile_imp late
  · intro c member
    have whole : c ∈ (s.dropWhile p).head? := by
      rw [← back, List.head?_append, member]
      rfl
    have stops := List.head?_dropWhile_not p s
    rw [whole] at stops
    exact stops
  · intro c member
    obtain ⟨something, rfl⟩ := List.mem_getLast?_eq_getLast member
    simpa using List.rdropWhile_last_not p _ something

theorem Bare.eq (bare : Bare p s inner) : inner = (s.dropWhile p).rdropWhile p := by
  obtain ⟨⟨front, back, rfl, around⟩, first, last⟩ := bare
  obtain ⟨before, behind⟩ := List.forall_mem_append.1 around
  rw [List.append_assoc, List.dropWhile_append_of_pos before]
  cases inner with
  | nil =>
    have none : back.dropWhile p = [] := List.dropWhile_eq_nil_iff.2 behind
    simp [none]
  | cons c rest =>
    have starts : p c = false := first c rfl
    have ends := last _ (List.getLast?_eq_some_getLast (List.cons_ne_nil c rest))
    have around : ∀ c ∈ back.reverse, p c := fun c member => behind c (List.mem_reverse.1 member)
    rw [List.cons_append, List.dropWhile_cons_of_neg (by simp [starts]), ← List.cons_append,
      List.rdropWhile, List.reverse_append, List.dropWhile_append_of_pos around,
      ← List.rdropWhile]
    exact (List.rdropWhile_eq_self_iff.2 fun _ => by simp [ends]).symm

theorem bare_iff : Bare p s inner ↔ inner = (s.dropWhile p).rdropWhile p :=
  ⟨Bare.eq, fun same => same ▸ bare_dropWhile p s⟩

/-- What is bare of more characters is the same, if the ends have none of them. -/
theorem Bare.mono (bare : Bare p s inner) (more : ∀ c, p c → q c)
    (first : ∀ c ∈ inner.head?, q c = false) (last : ∀ c ∈ inner.getLast?, q c = false) :
    Bare q s inner := by
  obtain ⟨front, back, split, around⟩ := bare.split
  exact ⟨⟨front, back, split, fun c member => more c (around c member)⟩, first, last⟩

/-- A text is another one and white space around it. -/
def Trimmed (text inner : String) : Prop := Bare isSpace text.toList inner.toList

theorem trimmed_iff {text inner : String} : Trimmed text inner ↔ inner = trim text := by
  have whole : (trim text).toList = (text.toList.dropWhile isSpace).rdropWhile isSpace := by
    rw [trim, String.toList_ofList]
    rfl
  rw [Trimmed, bare_iff, ← whole]
  exact String.toList_inj

end Text

namespace Json

open Text (isSpace Bare)

variable {s rest : List Char} {fuel depth : Nat}

/-- What was read ends in a character that is no white space. -/
def Ends (s rest : List Char) : Prop :=
  ∃ front last, s = front ++ last :: rest ∧ isSpace last = false

theorem Ends.append (ends : Ends s rest) (front : List Char) : Ends (front ++ s) rest := by
  obtain ⟨more, last, rfl, dark⟩ := ends
  exact ⟨front ++ more, last, by simp, dark⟩

theorem Ends.cons (ends : Ends s rest) (c : Char) : Ends (c :: s) rest := ends.append [c]

theorem Ends.of_skipBlank (ends : Ends (skipBlank s) rest) : Ends s rest := by
  rw [← List.takeWhile_append_dropWhile (p := isBlank) (l := s)]
  exact ends.append _

theorem Ends.trans {middle : List Char} (first : Ends s middle) (second : Ends middle rest) :
    Ends s rest := by
  obtain ⟨front, last, rfl, -⟩ := first
  exact (second.cons last).append front

theorem ends_cons {c : Char} (dark : isSpace c = false) : Ends (c :: rest) rest :=
  ⟨[], c, rfl, dark⟩

theorem isSpace_of_isDigit {c : Char} (digit : c.isDigit) : isSpace c = false := by
  have range : 48 ≤ c.toNat ∧ c.toNat ≤ 57 := by
    unfold Char.isDigit at digit
    obtain ⟨low, high⟩ := Bool.and_eq_true_iff.1 digit
    exact ⟨UInt32.le_iff_toNat_le.1 (of_decide_eq_true low),
      UInt32.le_iff_toNat_le.1 (of_decide_eq_true high)⟩
  simp only [isSpace, Text.spaces, Text.Ranges.has, List.any_cons, List.any_nil, Bool.or_false,
    Bool.or_eq_false_iff, Bool.and_eq_false_iff, decide_eq_false_iff_not]
  omega

theorem ends_string (read : string? s = some rest) : Ends s rest := by
  fun_induction string? s with
  | case2 tail =>
    obtain rfl := Option.some.inj read
    exact ends_cons (by decide)
  | case5 a b c d n _ _ _ e f g h tail m _ _ ih =>
    exact (ih read).append ['\\', 'u', a, b, c, d, '\\', 'u', e, f, g, h]
  | case9 a b c d tail n _ _ _ ih => exact (ih read).append ['\\', 'u', a, b, c, d]
  | case10 c tail _ _ ih => exact (ih read).append ['\\', c]
  | case13 c tail _ _ _ _ ih => exact (ih read).cons c
  | _ => contradiction

/-- Digits that were read, at least one. -/
theorem ends_span {digits : List Char} (read : s.span Char.isDigit = (digits, rest))
    (some : digits ≠ []) : Ends s rest := by
  rw [List.span_eq_takeWhile_dropWhile, Prod.mk.injEq] at read
  obtain ⟨rfl, rfl⟩ := read
  have digit := List.mem_takeWhile_imp (List.getLast_mem some)
  refine ⟨(s.takeWhile Char.isDigit).dropLast, _, ?_, isSpace_of_isDigit digit⟩
  rw [List.append_cons, List.dropLast_append_getLast, List.takeWhile_append_dropWhile]

theorem ends_exponent {power : Option Int} (read : exponent? s = some (power, rest)) :
    s = rest ∨ Ends s rest := by
  unfold exponent? at read
  split at read
  · obtain ⟨-, rfl⟩ := Prod.mk.inj (Option.some.inj read)
    exact .inl rfl
  · next mark tail =>
    split at read
    · split at read
      next negative unsigned signed =>
      have digits : Ends unsigned rest := by
        split at read
        · contradiction
        · next digits after something there =>
          obtain ⟨-, rfl⟩ := Prod.mk.inj (Option.some.inj read)
          exact ends_span there something
      right
      split at signed
      all_goals obtain ⟨-, rfl⟩ := Prod.mk.inj signed
      · exact digits.append [mark, '-']
      · exact digits.append [mark, '+']
      · exact digits.cons mark
    · obtain ⟨-, rfl⟩ := Prod.mk.inj (Option.some.inj read)
      exact .inl rfl

theorem ends_number (read : number? s = some rest) : Ends s rest := by
  unfold number? at read
  cases span : s.span Char.isDigit with
  | mk integer tail =>
    simp only [span] at read
    split at read
    · contradiction
    · next plain =>
      have first : Ends s tail := ends_span span fun none => plain (.inl none)
      have finish {before : List Char} (start : Ends s before) {power : Option Int}
          {after : List Char} (found : exponent? before = some (power, after))
          (same : after = rest) : Ends s rest := by
        subst same
        rcases ends_exponent found with rfl | ends
        · exact start
        · exact start.trans ends
      split at read
      · next fractional =>
        split at read
        · contradiction
        · next decimals after something there =>
          have point := (ends_span there something).cons '.'
          split at read
          · contradiction
          · next found =>
            split at read
            · contradiction
            · exact finish (first.trans point) found (Option.some.inj read)
          · next found =>
            split at read
            · contradiction
            · exact finish (first.trans point) found (Option.some.inj read)
      · split at read
        · contradiction
        · next found =>
          split at read
          · contradiction
          · exact finish first found (Option.some.inj read)
        · next found =>
          split at read
          · contradiction
          · exact finish first found (Option.some.inj read)

theorem ends_mark {c : Char} (mark : skipBlank s = c :: rest) (dark : isSpace c = false) :
    Ends s rest :=
  .of_skipBlank (mark ▸ ends_cons dark)

/-- One level of the recursion: values, the elements of an array and the members of an object. -/
theorem ends_levels (fuel : Nat) : ∀ depth s rest,
    (value? fuel depth s = some rest → Ends s rest) ∧
      (elements? fuel depth s = some rest → Ends s rest) ∧
      (members? fuel depth s = some rest → Ends s rest) := by
  induction fuel with
  | zero => simp [value?, elements?, members?]
  | succ fuel ih =>
    intro depth s rest
    refine ⟨fun read => ?value, fun read => ?elements, fun read => ?members⟩
    case value =>
      unfold value? at read
      split at read
      · obtain rfl := Option.some.inj read
        exact (ends_cons (by decide)).append ['n', 'u', 'l']
      · obtain rfl := Option.some.inj read
        exact (ends_cons (by decide)).append ['t', 'r', 'u']
      · obtain rfl := Option.some.inj read
        exact (ends_cons (by decide)).append ['f', 'a', 'l', 's']
      · exact (ends_string read).cons _
      · exact (ends_number read).cons _
      · split at read
        · contradiction
        · next close =>
          obtain rfl := Option.some.inj read
          exact (ends_mark close (by decide)).cons _
        · exact (Ends.of_skipBlank ((ih _ _ _).2.1 read)).cons _
      · split at read
        · contradiction
        · next close =>
          obtain rfl := Option.some.inj read
          exact (ends_mark close (by decide)).cons _
        · exact (Ends.of_skipBlank ((ih _ _ _).2.2 read)).cons _
      · exact ends_number read
    case elements =>
      unfold elements? at read
      split at read
      · contradiction
      · next after first =>
        have start := (ih _ _ _).1 first
        split at read
        · next close =>
          obtain rfl := Option.some.inj read
          exact start.trans (ends_mark close (by decide))
        · next comma =>
          have more := Ends.of_skipBlank ((ih _ _ _).2.1 read)
          exact (start.trans (ends_mark comma (by decide))).trans more
        · contradiction
    case members =>
      unfold members? at read
      split at read
      · split at read
        · contradiction
        · next key =>
          have start := (ends_string key).cons '"'
          split at read
          · next colon =>
            have named := start.trans (ends_mark colon (by decide))
            split at read
            · contradiction
            · next first =>
              have whole := named.trans (.of_skipBlank ((ih _ _ _).1 first))
              split at read
              · next close =>
                obtain rfl := Option.some.inj read
                exact whole.trans (ends_mark close (by decide))
              · next comma =>
                have more := Ends.of_skipBlank ((ih _ _ _).2.2 read)
                exact (whole.trans (ends_mark comma (by decide))).trans more
              · contradiction
          · contradiction
      · contradiction

theorem number_head (read : number? s = some rest) : ∀ c ∈ s.head?, c.isDigit := by
  intro c starts
  cases s with
  | nil => contradiction
  | cons d tail =>
    obtain rfl : d = c := by simpa using starts
    by_contra other
    have nothing : (d :: tail).span Char.isDigit = ([], d :: tail) := by
      rw [List.span_eq_takeWhile_dropWhile]
      simp [other]
    simp only [number?, nothing, true_or, if_true] at read
    contradiction

/-- A value begins in a character that is no white space. -/
theorem value_head (read : value? fuel depth s = some rest) :
    ∀ c ∈ s.head?, isSpace c = false := by
  cases fuel with
  | zero => simp [value?] at read
  | succ fuel =>
    unfold value? at read
    split at read
    all_goals try
      rintro c ⟨⟩
      decide
    exact fun c starts => isSpace_of_isDigit (number_head read c starts)

theorem value_getLast (read : value? fuel depth s = some []) :
    ∀ c ∈ s.getLast?, isSpace c = false := by
  obtain ⟨front, last, rfl, dark⟩ := (ends_levels fuel depth s []).1 read
  intro c ends
  obtain rfl : last = c := by simpa using ends
  exact dark

theorem isSpace_of_isBlank {c : Char} (blank : isBlank c) : isSpace c := by
  rcases (by simpa [isBlank, or_assoc] using blank : c = ' ' ∨ c = '\t' ∨ c = '\n' ∨ c = '\r') with
    rfl | rfl | rfl | rfl <;> decide

/-- Around a text that is accepted there are only blanks of JSON. -/
theorem trim_of_accepts {text : String} (accepted : accepts text) :
    (Text.trim text).toList = trimBlank text.toList := by
  have read : value? _ maxDepth (trimBlank text.toList) = some [] := of_decide_eq_true accepted
  have bare : Bare isBlank text.toList (trimBlank text.toList) :=
    Text.bare_dropWhile isBlank text.toList
  have wider := bare.mono (fun c => isSpace_of_isBlank) (value_head read) (value_getLast read)
  rw [wider.eq, Text.trim, String.toList_ofList]
  rfl

theorem trimBlank_trimBlank (s : List Char) : trimBlank (trimBlank s) = trimBlank s := by
  have bare : Bare isBlank s (trimBlank s) := Text.bare_dropWhile isBlank s
  exact (Bare.eq (p := isBlank) ⟨⟨[], [], by simp, by simp⟩, bare.first, bare.last⟩).symm

theorem accepts_trim {text : String} (accepted : accepts text) : accepts (Text.trim text) := by
  unfold accepts at accepted ⊢
  rwa [trim_of_accepts accepted, trimBlank_trimBlank]

end Json

/-- Trimming once is enough. -/
theorem Text.Trimmed.self {text inner : String} (trimmed : Trimmed text inner) :
    Trimmed inner inner :=
  ⟨⟨[], [], by simp, by simp⟩, trimmed.first, trimmed.last⟩

end DumpArchive
