import DumpArchive.Proofs.Blocks

/-! Parts of blocks on a stream without faults. Where a well-formed record or a delimiter is due,
the next part is that; whatever part is read, it stood at the front of the input. -/
namespace DumpArchive.Block

open Token (Reader)

variable {max : UInt64} {offset : Nat} {r next : Reader} {record rest w : Bytes}

theorem nextPart_header (small : max.toNat < 2 ^ 63) (formed : Record.Formed max record)
    (place : r.At max offset (record ++ rest)) :
    ∃ next, nextPart .between r = (.ok (.header r.offset record), next) ∧
      next.At max (offset + record.length) rest := by
  have token : (Token.record record).Formed max := formed
  obtain ⟨next, read, after⟩ := Reader.readToken_append small token place
  exact ⟨next, by simp [nextPart, read], after⟩

theorem nextPart_body (small : max.toNat < 2 ^ 63) (formed : Record.Formed max record)
    (place : r.At max offset (record ++ rest)) :
    ∃ next, nextPart .inside r = (.ok (.body r.offset record), next) ∧
      next.At max (offset + record.length) rest := by
  have token : (Token.record record).Formed max := formed
  obtain ⟨next, read, after⟩ := Reader.readToken_append small token place
  exact ⟨next, by simp [nextPart, read], after⟩

theorem nextPart_close (small : max.toNat < 2 ^ 63)
    (place : r.At max offset (Token.delimiterBytes ++ rest)) :
    ∃ next, nextPart .inside r = (.ok .close, next) ∧ next.At max (offset + 4) rest := by
  have token : Token.delimiter.Formed max := trivial
  obtain ⟨next, read, after⟩ := Reader.readToken_append (t := .delimiter) small token place
  exact ⟨next, by simp [nextPart, read], after⟩

theorem nextPart_finish (place : r.At max offset []) :
    ∃ next, nextPart .between r = (.ok (.finish r.offset), next) ∧ next.At max offset [] := by
  obtain ⟨next, read, after⟩ := Reader.readToken_nil place
  exact ⟨next, by simp [nextPart, read], after⟩

/-- What stood at the front of the input when a part was read there. -/
inductive Fronted (max : UInt64) : Place → Part → Bytes → Bytes → Prop
  | header {at' : Nat} {record rest : Bytes} : Record.Formed max record →
    Fronted max .between (.header at' record) (record ++ rest) rest
  | body {at' : Nat} {record rest : Bytes} : Record.Formed max record →
    Fronted max .inside (.body at' record) (record ++ rest) rest
  | close {rest : Bytes} : Fronted max .inside .close (Token.delimiterBytes ++ rest) rest
  | finish {at' : Nat} : Fronted max .between (.finish at') [] []

theorem fronted_of_nextPart {place : Place} {part : Part} (small : max.toNat < 2 ^ 63)
    (stands : r.At max offset w) (h : nextPart place r = (.ok part, next)) :
    ∃ rest, Fronted max place part w rest ∧ ∃ offset, next.At max offset rest := by
  unfold nextPart at h
  cases read : r.readToken with
  | mk result after =>
    rw [read] at h
    match result, place, h with
    | .ok none, .between, h =>
      obtain ⟨rfl, rfl⟩ := by simpa using h
      obtain rfl := Reader.nil_of_readToken stands read
      obtain ⟨last, again, ends⟩ := Reader.readToken_nil stands
      obtain rfl : last = after := by simpa [again] using read
      exact ⟨[], .finish, _, ends⟩
    | .ok (some .delimiter), .inside, h =>
      obtain ⟨rfl, rfl⟩ := by simpa using h
      obtain ⟨-, rest, rfl, goes⟩ := Reader.of_readToken small stands read
      exact ⟨rest, .close, _, goes⟩
    | .ok (some (.record record)), .between, h =>
      obtain ⟨rfl, rfl⟩ := by simpa using h
      obtain ⟨formed, rest, rfl, goes⟩ := Reader.of_readToken small stands read
      exact ⟨rest, .header formed, _, goes⟩
    | .ok (some (.record record)), .inside, h =>
      obtain ⟨rfl, rfl⟩ := by simpa using h
      obtain ⟨formed, rest, rfl, goes⟩ := Reader.of_readToken small stands read
      exact ⟨rest, .body formed, _, goes⟩

end DumpArchive.Block
