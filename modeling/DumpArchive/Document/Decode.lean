import DumpArchive.Document.Basic

/-! Reading documents. Every length inside a document must fit exactly, so a field that nobody
asks for is still measured to the byte. -/
namespace DumpArchive.Document

open Bytes (split?)

/-- A length-prefixed text and what follows it. -/
def text? (b : Bytes) : Option (String × Bytes) := do
  let (length, b) ← split? 4 b
  let size := length.toInt
  if size < 1 then none else
  let (utf8, b) ← split? (size.toNat - 1) b
  let (last, b) ← split? 1 b
  if last ≠ [0] then none else
  return (← utf8.toText?, b)

def zeroEnded? (b : Bytes) : Option (String × Bytes) := do
  let (utf8, b) ← b.splitZero?
  return (← utf8.toText?, b)

/-- The bytes between the length of a document and its end, and what follows the document. -/
def disclose? (b : Bytes) : Option (Bytes × Bytes) := do
  let (length, b) ← split? 4 b
  let size := length.toInt
  if size < 5 then none else split? (size.toNat - 4) b

def binary? (b : Bytes) : Option (Value × Bytes) := do
  let (length, b) ← split? 4 b
  let size := length.toInt
  if size < 0 then none else
  let (subtype, b) ← split? 1 b
  let (data, b) ← split? size.toNat b
  match subtype with
  | [2] =>
    if size < 4 ∨ Bytes.toInt (data.take 4) ≠ size - 4 then none else some (.binary 2 data, b)
  | [subtype] => some (.binary subtype data, b)
  | _ => none

def plain? (kind : Plain) (b : Bytes) : Option (Value × Bytes) := do
  let (payload, b) ← split? kind.width b
  return (.plain kind payload, b)

def textual? (kind : Textual) (b : Bytes) : Option (Value × Bytes) := do
  let (text, b) ← text? b
  return (.textual kind text, b)

def boolean? : Bytes → Option (Value × Bytes)
  | 0 :: b => some (.boolean false, b)
  | 1 :: b => some (.boolean true, b)
  | _ => none

def pattern? (b : Bytes) : Option (Value × Bytes) := do
  let (expression, b) ← zeroEnded? b
  let (options, b) ← zeroEnded? b
  return (.pattern expression options, b)

def pointer? (b : Bytes) : Option (Value × Bytes) := do
  let (collection, b) ← text? b
  let (id, b) ← split? 12 b
  return (.pointer collection id, b)

mutual

/-- The value of a field with this tag, and what follows it. -/
def value? (fuel : Nat) (tag : UInt8) (b : Bytes) : Option (Value × Bytes) :=
  match fuel with
  | 0 => none
  | fuel + 1 => match tag with
    | 0x01 => plain? .double b
    | 0x02 => textual? .string b
    | 0x03 => nested? fuel .document b
    | 0x04 => nested? fuel .array b
    | 0x05 => binary? b
    | 0x06 => plain? .undefined b
    | 0x07 => plain? .objectId b
    | 0x08 => boolean? b
    | 0x09 => plain? .dateTime b
    | 0x0A => plain? .null b
    | 0x0B => pattern? b
    | 0x0C => pointer? b
    | 0x0D => textual? .code b
    | 0x0E => textual? .symbol b
    | 0x0F => do
      let (length, b) ← split? 4 b
      let size := length.toInt
      if size < 4 then none else
      let (inner, b) ← split? (size.toNat - 4) b
      let (code, inner) ← text? inner
      let (body, inner) ← disclose? inner
      if inner ≠ [] then none else
      let scope ← fields? fuel body
      return (.scopedCode code scope, b)
    | 0x10 => plain? .int32 b
    | 0x11 => plain? .timestamp b
    | 0x12 => plain? .int64 b
    | 0x13 => plain? .decimal b
    | 0x7F => plain? .maxKey b
    | 0xFF => plain? .minKey b
    | _ => none

def nested? (fuel : Nat) (kind : Nested) (b : Bytes) : Option (Value × Bytes) :=
  match fuel with
  | 0 => none
  | fuel + 1 => do
    let (body, b) ← disclose? b
    let fields ← fields? fuel body
    return (.nested kind fields, b)

/-- All of some bytes as fields and the final zero byte. -/
def fields? (fuel : Nat) (b : Bytes) : Option Fields :=
  match fuel with
  | 0 => none
  | fuel + 1 => match b with
    | [] => none
    | tag :: b =>
      if tag = 0 then (if b = [] then some .nil else none)
      else do
        let (key, b) ← zeroEnded? b
        let (value, b) ← value? fuel tag b
        return .cons key value (← fields? fuel b)

end

/-- A document that is all of some bytes. Each field takes two bytes or more and each level of
nesting five, so the number of bytes bounds the depth of the reading. -/
def Fields.decode? (b : Bytes) : Option Fields := do
  let (body, rest) ← disclose? b
  if rest ≠ [] then none else fields? (b.length + 1) body

end DumpArchive.Document
