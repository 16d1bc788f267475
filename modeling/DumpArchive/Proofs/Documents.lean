import DumpArchive.Header
import DumpArchive.Proofs.Framing
import DumpArchive.Proofs.ListUpdates

/-! Documents survive encoding. A document whose parts have the form their kinds ask for is read
back from its bytes if these are fewer than a length can say; the header documents of an archive
are of this kind. -/
namespace DumpArchive

namespace Bytes

theorem split?_append {n : Nat} {front rest : Bytes} (size : front.length = n) :
    split? n (front ++ rest) = some (front, rest) := by
  simp [split?, List.take_left' size, List.drop_left' size, size]

theorem toInt_word {n : Nat} (small : n < 2147483648) : toInt (word n) = n := by
  have value : toNat (word n) = n := by
    rw [toNat_ofNat, Nat.mod_eq_of_lt]
    simp only [capacity]
    omega
  simp only [toInt, value, length_ofNat, capacity]
  rw [if_pos (by omega)]

@[simp] theorem toText?_ofText (s : String) : toText? (ofText s) = some s := by
  have bytes : (ofText s).toByteArray = s.toByteArray := by
    apply ByteArray.ext
    rw [List.data_toByteArray, ofText, Array.toArray_toList]
    rfl
  rw [toText?, bytes, String.fromUTF8?, dif_pos s.isValidUTF8]
  rfl

theorem splitZero?_append {front rest : Bytes} (plain : 0 ∉ front) :
    splitZero? (front ++ 0 :: rest) = some (front, rest) := by
  rw [splitZero?, span_ne_eq_iff.2 ⟨rfl, rfl, plain⟩]

end Bytes

namespace Document

/-- Sizes that a length, which is a signed word, can say. -/
abbrev Sized (n : Nat) : Prop := n < 2147483648

theorem length_textBytes (s : String) : (textBytes s).length = (Bytes.ofText s).length + 5 := by
  simp [textBytes]
  omega

theorem length_enclose (fields : Bytes) : (enclose fields).length = fields.length + 5 := by
  simp [enclose]
  omega

theorem text?_textBytes {s : String} {rest : Bytes} (sized : Sized ((Bytes.ofText s).length + 1)) :
    text? (textBytes s ++ rest) = some (s, rest) := by
  have form : textBytes s ++ rest =
      Bytes.word ((Bytes.ofText s).length + 1) ++ (Bytes.ofText s ++ ([0] ++ rest)) := by
    simp [textBytes]
  rw [form, text?, Bytes.split?_append (Bytes.length_ofNat 4 _)]
  simp only [Option.bind_eq_bind, Option.bind_some, Bytes.toInt_word sized]
  rw [if_neg (by omega), Bytes.split?_append (by omega), Option.bind_some,
    Bytes.split?_append (by rfl), Option.bind_some, if_neg (by simp), Bytes.toText?_ofText]
  rfl

theorem zeroEnded?_zeroEnded {s : String} {rest : Bytes} (plain : 0 ∉ Bytes.ofText s) :
    zeroEnded? (zeroEnded s ++ rest) = some (s, rest) := by
  have form : zeroEnded s ++ rest = Bytes.ofText s ++ 0 :: rest := by simp [zeroEnded]
  rw [form, zeroEnded?, Bytes.splitZero?_append plain]
  simp

theorem disclose?_enclose {fields rest : Bytes} (sized : Sized (fields.length + 5)) :
    disclose? (enclose fields ++ rest) = some (fields ++ [0], rest) := by
  have form : enclose fields ++ rest =
      Bytes.word (fields.length + 5) ++ ((fields ++ [0]) ++ rest) := by simp [enclose]
  rw [form, disclose?, Bytes.split?_append (Bytes.length_ofNat 4 _)]
  simp only [Option.bind_eq_bind, Option.bind_some, Bytes.toInt_word sized]
  rw [if_neg (by omega), Bytes.split?_append]
  simp only [List.length_append, List.length_singleton]
  omega

mutual

/-- The parts of a value have the widths and forms that its kind asks for. -/
def Value.Proper : Value → Prop
  | .plain kind payload => payload.length = kind.width
  | .textual .. => True
  | .nested _ fields => fields.Proper
  | .boolean _ => True
  | .binary subtype data =>
    subtype = 2 → 4 ≤ data.length ∧ Bytes.toInt (data.take 4) = data.length - 4
  | .pattern expression options => 0 ∉ Bytes.ofText expression ∧ 0 ∉ Bytes.ofText options
  | .pointer _ id => id.length = 12
  | .scopedCode _ scope => scope.Proper

/-- Keys end at their first zero byte. -/
def Fields.Proper : Fields → Prop
  | .nil => True
  | .cons key value rest => 0 ∉ Bytes.ofText key ∧ value.Proper ∧ rest.Proper

end

theorem plain?_append {kind : Plain} {payload rest : Bytes} (width : payload.length = kind.width) :
    plain? kind (payload ++ rest) = some (.plain kind payload, rest) := by
  simp [plain?, Bytes.split?_append width]

theorem binary?_append {subtype : UInt8} {data rest : Bytes} (sized : Sized data.length)
    (proper : (Value.binary subtype data).Proper) :
    binary? ((Value.binary subtype data).payload ++ rest) = some (.binary subtype data, rest) := by
  have form : (Value.binary subtype data).payload ++ rest =
      Bytes.word data.length ++ ([subtype] ++ (data ++ rest)) := by simp [Value.payload]
  rw [form, binary?, Bytes.split?_append (Bytes.length_ofNat 4 _)]
  simp only [Option.bind_eq_bind, Option.bind_some, Bytes.toInt_word sized]
  rw [if_neg (by omega), Bytes.split?_append (by rfl), Option.bind_some,
    Bytes.split?_append (by simp), Option.bind_some]
  split
  · next two =>
    obtain rfl : subtype = 2 := by simpa using two
    obtain ⟨least, inner⟩ := proper rfl
    have fits : ¬((data.length : Int) < 4 ∨ Bytes.toInt (data.take 4) ≠ data.length - 4) := by
      omega
    rw [if_neg fits]
  · next other =>
    obtain rfl := by simpa using other
    rfl
  · next none => exact absurd rfl (none subtype)

theorem pattern?_append {expression options : String} {rest : Bytes}
    (proper : (Value.pattern expression options).Proper) :
    pattern? ((Value.pattern expression options).payload ++ rest) =
      some (.pattern expression options, rest) := by
  have form : (Value.pattern expression options).payload ++ rest =
      zeroEnded expression ++ (zeroEnded options ++ rest) := by simp [Value.payload]
  rw [form, pattern?, zeroEnded?_zeroEnded proper.1]
  simp [zeroEnded?_zeroEnded proper.2]

theorem pointer?_append {collection : String} {id rest : Bytes} (width : id.length = 12)
    (sized : Sized ((Bytes.ofText collection).length + 1)) :
    pointer? ((Value.pointer collection id).payload ++ rest) =
      some (.pointer collection id, rest) := by
  have form : (Value.pointer collection id).payload ++ rest =
      textBytes collection ++ (id ++ rest) := by simp [Value.payload]
  rw [form, pointer?, text?_textBytes sized]
  simp [Bytes.split?_append width]

theorem tag_ne_zero (v : Value) : v.tag ≠ 0 := by
  cases v with
  | plain kind _ => cases kind <;> simp [Value.tag, Plain.tag]
  | textual kind _ => cases kind <;> simp [Value.tag, Textual.tag]
  | nested kind _ => cases kind <;> simp [Value.tag, Nested.tag]
  | _ => simp [Value.tag]

mutual

theorem value?_payload (v : Value) (fuel : Nat) (rest : Bytes) (proper : v.Proper)
    (sized : Sized v.payload.length) (enough : v.payload.length + 1 < fuel) :
    value? fuel v.tag (v.payload ++ rest) = some (v, rest) := by
  obtain ⟨fuel, rfl⟩ : ∃ less, fuel = less + 1 := ⟨fuel - 1, by omega⟩
  match v with
  | .plain kind payload =>
    have width : payload.length = kind.width := proper
    cases kind <;> exact plain?_append width
  | .textual kind text =>
    simp only [Value.payload, length_textBytes] at sized
    have whole : text? (textBytes text ++ rest) = some (text, rest) :=
      text?_textBytes (by omega)
    cases kind <;> simp [value?, Value.tag, Textual.tag, textual?, Value.payload, whole]
  | .nested kind fields =>
    simp only [Value.payload, length_enclose] at sized enough
    obtain ⟨fuel, rfl⟩ : ∃ less, fuel = less + 1 := ⟨fuel - 1, by omega⟩
    have inner := fields?_bytes fields fuel proper (by omega) (by omega)
    have outer : disclose? (enclose fields.bytes ++ rest) = some (fields.bytes ++ [0], rest) :=
      disclose?_enclose sized
    cases kind <;> simp [value?, Value.tag, Nested.tag, nested?, Value.payload, outer, inner]
  | .boolean b => cases b <;> rfl
  | .binary subtype data =>
    have short : data.length ≤ (Value.binary subtype data).payload.length := by
      simp only [Value.payload, List.length_append, List.length_cons]
      omega
    exact binary?_append (Nat.lt_of_le_of_lt short sized) proper
  | .pattern expression options => exact pattern?_append proper
  | .pointer collection id =>
    simp only [Value.payload, List.length_append, length_textBytes] at sized
    exact pointer?_append proper (by omega)
  | .scopedCode code scope =>
    simp only [Value.payload, List.length_append, Bytes.length_ofNat, length_textBytes,
      length_enclose] at sized enough
    have inner := fields?_bytes scope fuel proper (by omega) (by omega)
    have form : (Value.scopedCode code scope).payload ++ rest =
        Bytes.word ((textBytes code ++ enclose scope.bytes).length + 4) ++
          ((textBytes code ++ (enclose scope.bytes ++ [])) ++ rest) := by simp [Value.payload]
    rw [form]
    simp only [value?, Value.tag]
    rw [Bytes.split?_append (Bytes.length_ofNat 4 _)]
    simp only [Option.bind_eq_bind, Option.bind_some]
    rw [Bytes.toInt_word (by simp only [List.length_append, length_textBytes, length_enclose]; omega),
      if_neg (by omega), Bytes.split?_append (by simp; omega), Option.bind_some,
      text?_textBytes (by omega), Option.bind_some, disclose?_enclose (by omega)]
    simp [inner]

theorem fields?_bytes (fields : Fields) (fuel : Nat) (proper : fields.Proper)
    (sized : Sized fields.bytes.length) (enough : fields.bytes.length < fuel) :
    fields? fuel (fields.bytes ++ [0]) = some fields := by
  obtain ⟨fuel, rfl⟩ : ∃ less, fuel = less + 1 := ⟨fuel - 1, by omega⟩
  match fields with
  | .nil => rfl
  | .cons key value rest =>
    obtain ⟨plain, first, others⟩ := proper
    simp only [Fields.bytes, List.length_cons, List.length_append, zeroEnded,
      List.length_nil] at sized enough
    have read := value?_payload value fuel (rest.bytes ++ [0]) first (by omega) (by omega)
    have more := fields?_bytes rest fuel others (by omega) (by omega)
    have form : (Fields.cons key value rest).bytes ++ [0] =
        value.tag :: (zeroEnded key ++ (value.payload ++ (rest.bytes ++ [0]))) := by
      simp [Fields.bytes]
    simp only [form, fields?]
    rw [if_neg (tag_ne_zero value), zeroEnded?_zeroEnded plain]
    simp [read, more]

end

/-- A document is all of its bytes. -/
theorem Fields.decode?_encode {fields : Fields} (proper : fields.Proper)
    (sized : Sized fields.encode.length) : Fields.decode? fields.encode = some fields := by
  have size : fields.encode.length = fields.bytes.length + 5 := length_enclose _
  have inner := fields?_bytes fields (fields.encode.length + 1) proper (by omega) (by omega)
  have outer : disclose? (enclose fields.bytes ++ []) = some (fields.bytes ++ [0], []) :=
    disclose?_enclose (by omega)
  rw [List.append_nil] at outer
  simp only [Fields.decode?, Fields.encode] at inner ⊢
  simp [outer, inner]

/-- What is encoded is a record, unless it is too long. -/
theorem Fields.formed_encode {fields : Fields} {max : UInt64}
    (most : fields.encode.length ≤ max.toNat) (sized : Sized fields.encode.length) :
    Record.Formed max fields.encode := by
  have size : fields.encode.length = fields.bytes.length + 5 := length_enclose _
  have split : fields.encode = Bytes.word (fields.bytes.length + 5) ++ (fields.bytes ++ [0]) := by
    simp [encode, enclose]
  refine ⟨by simp [size, Record.minSize], most, ?_, ?_⟩
  · rw [size, split, List.take_left' (Bytes.length_ofNat 4 _), Bytes.toInt_word (size ▸ sized)]
  · simp [encode, enclose]

end Document
open Document (Fields Value Sized)

@[simp] theorem Document.Value.text?_string (s : String) : (Value.string s).text? = some s := rfl

theorem Document.Value.int32?_word (n : Int32) :
    (Value.plain .int32 (Bytes.word n.toUInt32.toNat)).int32? = some n := by
  have bound : n.toUInt32.toNat < 4294967296 := n.toUInt32.toNat_lt
  have value : Bytes.toNat (Bytes.word n.toUInt32.toNat) = n.toUInt32.toNat := by
    rw [Bytes.toNat_ofNat]
    exact Nat.mod_eq_of_lt bound
  have signed : Bytes.toInt (Bytes.word n.toUInt32.toNat) = n.toInt := by
    simp only [Bytes.toInt, value, Bytes.length_ofNat, Bytes.capacity]
    exact (BitVec.toInt_eq_toNat_cond n.toBitVec).symm
  simp [Value.int32?, signed]

theorem CollectionHeader.proper_fields (h : CollectionHeader) : h.fields.Proper := by
  have db : 0 ∉ Bytes.ofText "db" := by decide
  have collection : 0 ∉ Bytes.ofText "collection" := by decide
  have eof : 0 ∉ Bytes.ofText "EOF" := by decide
  unfold CollectionHeader.fields
  split <;> simp [Fields.Proper, Value.Proper, Value.string, db, collection, eof]

theorem CollectionHeader.ofFields?_fields (h : CollectionHeader) :
    ofFields? h.fields = some h := by
  obtain ⟨⟨db, collection⟩, eof⟩ := h
  cases eof <;>
    simp [ofFields?, CollectionHeader.fields, Fields.field?, Fields.values, Value.boolean?]

theorem CollectionHeader.ofRecord?_record {h : CollectionHeader} (sized : Sized h.record.length) :
    ofRecord? h.record = some h := by
  rw [ofRecord?, record, Fields.decode?_encode h.proper_fields sized, Option.bind_some,
    ofFields?_fields]

theorem CatalogEntry.proper_fields (e : CatalogEntry) : e.fields.Proper := by
  have db : 0 ∉ Bytes.ofText "db" := by decide
  have collection : 0 ∉ Bytes.ofText "collection" := by decide
  have metadata : 0 ∉ Bytes.ofText "metadata" := by decide
  simp [CatalogEntry.fields, Fields.Proper, Value.Proper, Value.string, db, collection, metadata]

theorem CatalogEntry.ofFields?_fields (e : CatalogEntry) : ofFields? e.fields = some e := by
  obtain ⟨⟨db, collection⟩, metadata⟩ := e
  simp [ofFields?, CatalogEntry.fields, Fields.field?, Fields.values]

theorem CatalogEntry.ofRecord?_record {e : CatalogEntry} (sized : Sized e.record.length) :
    ofRecord? e.record = some e := by
  rw [ofRecord?, record, Fields.decode?_encode e.proper_fields sized, Option.bind_some,
    ofFields?_fields]

theorem ArchiveHeader.proper_fields (h : ArchiveHeader) : h.fields.Proper := by
  have concurrent : 0 ∉ Bytes.ofText "concurrent_collections" := by decide
  have version : 0 ∉ Bytes.ofText "version" := by decide
  simp [ArchiveHeader.fields, Fields.Proper, Value.Proper, Value.string, concurrent, version,
    Document.Plain.width]

theorem ArchiveHeader.ofFields?_fields (h : ArchiveHeader) : ofFields? h.fields = some h := by
  obtain ⟨concurrent, version⟩ := h
  simp [ofFields?, ArchiveHeader.fields, Fields.field?, Fields.values, Value.int32?_word]

theorem ArchiveHeader.ofRecord?_record {h : ArchiveHeader} (sized : Sized h.record.length) :
    ofRecord? h.record = some h := by
  rw [ofRecord?, record, Fields.decode?_encode h.proper_fields sized, Option.bind_some,
    ofFields?_fields]

end DumpArchive
