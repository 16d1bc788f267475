import DumpArchive.Proofs.Documents

/-! What reads as a document. Every length inside it fits to the byte, so the bytes are those that
the document is written as, down to the fields that nobody asks for. -/
namespace DumpArchive

namespace Bytes

theorem split?_eq_some_iff {n : Nat} {b front rest : Bytes} :
    split? n b = some (front, rest) ↔ front.length = n ∧ b = front ++ rest := by
  constructor
  · intro h
    simp only [split?, Option.ite_none_right_eq_some, Option.some.injEq, Prod.mk.injEq] at h
    obtain ⟨width, rfl, rfl⟩ := h
    exact ⟨width, (List.take_append_drop n b).symm⟩
  · rintro ⟨width, rfl⟩
    exact split?_append width

theorem ofNat_toNat (b : Bytes) : ofNat b.length b.toNat = b := by
  induction b with
  | nil => rfl
  | cons first rest ih =>
    have low : first.toNat < 256 := first.toNat_lt
    have high : (first.toNat + 256 * toNat rest) / 256 = toNat rest := by omega
    have same : UInt8.ofNat (first.toNat + 256 * toNat rest) = first := by
      apply UInt8.toNat_inj.1
      rw [UInt8.toNat_ofNat']
      omega
    rw [toNat, List.length_cons, ofNat, high, same, ih]

/-- A length that is not negative is spelled in one way. -/
theorem word_of_toInt {four : Bytes} {n : Nat} (width : four.length = 4) (value : four.toInt = n) :
    four = word n ∧ n < 2147483648 := by
  have bound : four.toNat < capacity 4 := by
    have same := toNat_ofNat four.length four.toNat
    rw [ofNat_toNat, width] at same
    rw [same]
    exact Nat.mod_lt _ (by decide)
  simp only [toInt, width, capacity] at value bound
  split at value
  · next positive =>
    obtain rfl : four.toNat = n := by exact_mod_cast value
    refine ⟨?_, by omega⟩
    rw [word, ← width, ofNat_toNat]
  · omega

theorem ofText_of_toText? {b : Bytes} {s : String} (h : b.toText? = some s) : ofText s = b := by
  simp only [toText?, String.fromUTF8?, Option.dite_none_right_eq_some, Option.some.injEq] at h
  obtain ⟨valid, rfl⟩ := h
  simp [ofText, String.fromUTF8, String.toUTF8]

theorem splitZero?_inv {b front rest : Bytes} (h : b.splitZero? = some (front, rest)) :
    b = front ++ 0 :: rest ∧ 0 ∉ front := by
  rw [splitZero?] at h
  split at h
  · contradiction
  · next zero back found =>
    obtain ⟨rfl, rfl⟩ := by simpa using h
    obtain ⟨whole, rfl, plain⟩ := span_ne_eq_iff.1 found
    exact ⟨whole, plain⟩

end Bytes

namespace Document

open Bytes (split?_eq_some_iff word_of_toInt ofText_of_toText?)

variable {b rest : Bytes}

theorem text?_inv {s : String} (h : text? b = some (s, rest)) : b = textBytes s ++ rest := by
  simp only [text?, Option.bind_eq_bind, Option.bind_eq_some_iff, Prod.exists,
    Option.ite_none_left_eq_some] at h
  obtain ⟨length, _, first, positive, utf8, _, second, last, left, third, ended, text, read,
    same⟩ := h
  obtain ⟨width, rfl⟩ := split?_eq_some_iff.1 first
  obtain ⟨size, rfl⟩ := split?_eq_some_iff.1 second
  obtain ⟨-, rfl⟩ := split?_eq_some_iff.1 third
  obtain rfl : last = [0] := not_not.1 ended
  obtain ⟨rfl, rfl⟩ := by simpa using same
  obtain rfl := ofText_of_toText? read
  obtain ⟨rfl, -⟩ := word_of_toInt (n := (Bytes.ofText text).length + 1) width (by omega)
  simp [textBytes]

theorem zeroEnded?_inv {s : String} (h : zeroEnded? b = some (s, rest)) :
    b = zeroEnded s ++ rest ∧ 0 ∉ Bytes.ofText s := by
  simp only [zeroEnded?, Option.bind_eq_bind, Option.bind_eq_some_iff, Prod.exists] at h
  obtain ⟨utf8, left, found, text, read, same⟩ := h
  obtain ⟨rfl, plain⟩ := Bytes.splitZero?_inv found
  obtain ⟨rfl, rfl⟩ := by simpa using same
  obtain rfl := ofText_of_toText? read
  exact ⟨by simp [zeroEnded], plain⟩

/-- What stands between the length of a document and its end begins anywhere behind the length. -/
theorem disclose?_inv {body : Bytes} (h : disclose? b = some (body, rest)) :
    b = Bytes.word (body.length + 4) ++ (body ++ rest) ∧ Sized (body.length + 4) := by
  simp only [disclose?, Option.bind_eq_bind, Option.bind_eq_some_iff, Prod.exists,
    Option.ite_none_left_eq_some] at h
  obtain ⟨length, _, first, least, second⟩ := h
  obtain ⟨width, rfl⟩ := split?_eq_some_iff.1 first
  obtain ⟨size, rfl⟩ := split?_eq_some_iff.1 second
  obtain ⟨rfl, sized⟩ := word_of_toInt (n := body.length + 4) width (by omega)
  exact ⟨rfl, sized⟩

theorem enclose_of_disclose? {fields : Bytes} (h : disclose? b = some (fields ++ [0], rest)) :
    b = enclose fields ++ rest := by
  obtain ⟨rfl, -⟩ := disclose?_inv h
  simp [enclose]

/-- What has been read is a well-formed value, which stood in front under its own tag. -/
structure Value.Read (v : Value) (tag : UInt8) (b rest : Bytes) : Prop where
  tag : tag = v.tag
  bytes : b = v.payload ++ rest
  proper : v.Proper

variable {v : Value}

theorem plain?_inv {kind : Plain} (h : plain? kind b = some (v, rest)) :
    v.Read kind.tag b rest := by
  simp only [plain?, Option.bind_eq_bind, Option.bind_eq_some_iff, Prod.exists] at h
  obtain ⟨payload, left, found, same⟩ := h
  obtain ⟨width, rfl⟩ := split?_eq_some_iff.1 found
  obtain ⟨rfl, rfl⟩ := by simpa using same
  exact ⟨rfl, rfl, width⟩

theorem textual?_inv {kind : Textual} (h : textual? kind b = some (v, rest)) :
    v.Read kind.tag b rest := by
  simp only [textual?, Option.bind_eq_bind, Option.bind_eq_some_iff, Prod.exists] at h
  obtain ⟨text, left, found, same⟩ := h
  obtain ⟨rfl, rfl⟩ := by simpa using same
  exact ⟨rfl, text?_inv found, trivial⟩

theorem boolean?_inv (h : boolean? b = some (v, rest)) : v.Read 0x08 b rest := by
  unfold boolean? at h
  split at h
  · obtain ⟨rfl, rfl⟩ := by simpa using h
    exact ⟨rfl, rfl, trivial⟩
  · obtain ⟨rfl, rfl⟩ := by simpa using h
    exact ⟨rfl, rfl, trivial⟩
  · contradiction

theorem binary?_inv (h : binary? b = some (v, rest)) : v.Read 0x05 b rest := by
  simp only [binary?, Option.bind_eq_bind, Option.bind_eq_some_iff, Prod.exists,
    Option.ite_none_left_eq_some] at h
  obtain ⟨length, _, first, positive, subtype, _, second, data, left, third, whole⟩ := h
  obtain ⟨width, rfl⟩ := split?_eq_some_iff.1 first
  obtain ⟨one, rfl⟩ := split?_eq_some_iff.1 second
  obtain ⟨size, rfl⟩ := split?_eq_some_iff.1 third
  obtain ⟨rfl, sized⟩ := word_of_toInt (n := data.length) width (by omega)
  have value := Bytes.toInt_word sized
  split at whole
  · obtain ⟨fits, same⟩ := Option.ite_none_left_eq_some.1 whole
    obtain ⟨rfl, rfl⟩ := by simpa using same
    refine ⟨rfl, by simp [Value.payload], fun _ => ?_⟩
    omega
  · next subtype other =>
    obtain ⟨rfl, rfl⟩ := by simpa using whole
    exact ⟨rfl, by simp [Value.payload], fun two => absurd (two ▸ rfl) other⟩
  · contradiction

theorem pattern?_inv (h : pattern? b = some (v, rest)) : v.Read 0x0B b rest := by
  simp only [pattern?, Option.bind_eq_bind, Option.bind_eq_some_iff, Prod.exists] at h
  obtain ⟨expression, _, first, options, left, second, same⟩ := h
  obtain ⟨rfl, front⟩ := zeroEnded?_inv first
  obtain ⟨rfl, back⟩ := zeroEnded?_inv second
  obtain ⟨rfl, rfl⟩ := by simpa using same
  exact ⟨rfl, by simp [Value.payload], front, back⟩

theorem pointer?_inv (h : pointer? b = some (v, rest)) : v.Read 0x0C b rest := by
  simp only [pointer?, Option.bind_eq_bind, Option.bind_eq_some_iff, Prod.exists] at h
  obtain ⟨collection, _, first, id, left, second, same⟩ := h
  obtain rfl := text?_inv first
  obtain ⟨width, rfl⟩ := split?_eq_some_iff.1 second
  obtain ⟨rfl, rfl⟩ := by simpa using same
  exact ⟨rfl, by simp [Value.payload], width⟩

mutual

theorem value?_inv {fuel : Nat} {tag : UInt8} {b rest : Bytes} {v : Value}
    (h : value? fuel tag b = some (v, rest)) : v.Read tag b rest := by
  match fuel with
  | 0 => simp [value?] at h
  | fuel + 1 =>
    unfold value? at h
    split at h
    case h_1 | h_6 | h_7 | h_9 | h_10 | h_16 | h_17 | h_18 | h_19 | h_20 | h_21 =>
      exact plain?_inv h
    case h_2 | h_13 | h_14 => exact textual?_inv h
    case h_3 | h_4 => exact nested?_inv h
    case h_5 => exact binary?_inv h
    case h_8 => exact boolean?_inv h
    case h_11 => exact pattern?_inv h
    case h_12 => exact pointer?_inv h
    case h_15 =>
      simp only [Option.bind_eq_bind, Option.bind_eq_some_iff, Prod.exists,
        Option.ite_none_left_eq_some] at h
      obtain ⟨length, _, first, least, inner, left, second, code, _, third, body, last, fourth,
        nothing, scope, fifth, same⟩ := h
      obtain ⟨width, rfl⟩ := split?_eq_some_iff.1 first
      obtain ⟨size, rfl⟩ := split?_eq_some_iff.1 second
      obtain rfl : last = [] := not_not.1 nothing
      obtain ⟨rfl, proper⟩ := fields?_inv fifth
      obtain rfl := text?_inv third
      obtain rfl := enclose_of_disclose? fourth
      obtain ⟨rfl, rfl⟩ := by simpa using same
      generalize whole : textBytes code ++ (enclose scope.bytes ++ []) = inner at *
      obtain ⟨rfl, -⟩ := word_of_toInt (n := inner.length + 4) width (by omega)
      exact ⟨rfl, by simp [Value.payload, ← whole], proper⟩
    case h_22 => contradiction

theorem nested?_inv {fuel : Nat} {kind : Nested} {b rest : Bytes} {v : Value}
    (h : nested? fuel kind b = some (v, rest)) : v.Read kind.tag b rest := by
  match fuel with
  | 0 => simp [nested?] at h
  | fuel + 1 =>
    simp only [nested?, Option.bind_eq_bind, Option.bind_eq_some_iff, Prod.exists] at h
    obtain ⟨body, left, first, fields, inner, same⟩ := h
    obtain ⟨rfl, proper⟩ := fields?_inv inner
    obtain ⟨rfl, rfl⟩ := by simpa using same
    exact ⟨rfl, enclose_of_disclose? first, proper⟩

theorem fields?_inv {fuel : Nat} {b : Bytes} {fields : Fields} (h : fields? fuel b = some fields) :
    b = fields.bytes ++ [0] ∧ fields.Proper := by
  match fuel with
  | 0 => simp [fields?] at h
  | fuel + 1 =>
    unfold fields? at h
    split at h
    · contradiction
    · next tag b =>
      split at h
      · next zero =>
        obtain ⟨rfl, rfl⟩ := by simpa using h
        exact ⟨by simp [zero, Fields.bytes], trivial⟩
      · simp only [Option.bind_eq_bind, Option.bind_eq_some_iff, Prod.exists] at h
        obtain ⟨key, _, first, v, left, second, rest, third, same⟩ := h
        obtain ⟨rfl, plain⟩ := zeroEnded?_inv first
        obtain ⟨rfl, rfl, proper⟩ := value?_inv second
        obtain ⟨rfl, others⟩ := fields?_inv third
        obtain rfl := by simpa using same
        exact ⟨by simp [Fields.bytes], plain, proper, others⟩

end

/-- A document is made of these elements, one after the other. -/
structure Made (elements : List (String × Value)) (b : Bytes) : Prop where
  bytes : b = (Fields.ofList elements).encode
  proper : (Fields.ofList elements).Proper
  sized : Sized b.length

/-- What is read as a document is made of the elements that are read, and nothing else is. -/
theorem made_iff {elements : List (String × Value)} :
    Made elements b ↔ Fields.decode? b = some (.ofList elements) := by
  constructor
  · rintro ⟨rfl, proper, sized⟩
    exact Fields.decode?_encode proper sized
  · intro h
    simp only [Fields.decode?, Option.bind_eq_bind, Option.bind_eq_some_iff, Prod.exists,
      Option.ite_none_left_eq_some] at h
    obtain ⟨body, left, first, nothing, inner⟩ := h
    obtain rfl : left = [] := not_not.1 nothing
    obtain ⟨rfl, proper⟩ := fields?_inv inner
    obtain ⟨-, sized⟩ := disclose?_inv first
    obtain rfl := enclose_of_disclose? first
    refine ⟨List.append_nil _, proper, ?_⟩
    simpa [length_enclose] using sized

end Document
end DumpArchive
