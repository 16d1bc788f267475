import DumpArchive.Bytes

/-! Documents: ordered fields of typed values in a self-delimiting binary form. The whole form
of a document is its length in four bytes, its fields and a zero byte, so it is also a record. -/
namespace DumpArchive.Document

/-- Values that are only a number of bytes. -/
inductive Plain where
  | double
  | undefined
  | objectId
  | dateTime
  | null
  | int32
  | timestamp
  | int64
  | decimal
  | maxKey
  | minKey
  deriving DecidableEq, Repr

/-- Values that are one text. -/
inductive Textual where
  | string
  | code
  | symbol
  deriving DecidableEq, Repr

/-- Values that are fields of their own. The keys of an array are not looked at. -/
inductive Nested where
  | document
  | array
  deriving DecidableEq, Repr

mutual

inductive Value where
  | plain (kind : Plain) (payload : Bytes)
  | textual (kind : Textual) (text : String)
  | nested (kind : Nested) (fields : Fields)
  | boolean (b : Bool)
  | binary (subtype : UInt8) (data : Bytes)
  | pattern (expression options : String)
  | pointer (collection : String) (id : Bytes)
  | scopedCode (code : String) (scope : Fields)

inductive Fields where
  | nil
  | cons (key : String) (value : Value) (rest : Fields)

end

def Plain.tag : Plain → UInt8
  | .double => 0x01
  | .undefined => 0x06
  | .objectId => 0x07
  | .dateTime => 0x09
  | .null => 0x0A
  | .int32 => 0x10
  | .timestamp => 0x11
  | .int64 => 0x12
  | .decimal => 0x13
  | .maxKey => 0x7F
  | .minKey => 0xFF

def Plain.width : Plain → Nat
  | .double | .dateTime | .timestamp | .int64 => 8
  | .undefined | .null | .maxKey | .minKey => 0
  | .objectId => 12
  | .int32 => 4
  | .decimal => 16

def Textual.tag : Textual → UInt8
  | .string => 0x02
  | .code => 0x0D
  | .symbol => 0x0E

def Nested.tag : Nested → UInt8
  | .document => 0x03
  | .array => 0x04

def Value.tag : Value → UInt8
  | .plain kind _ => kind.tag
  | .textual kind _ => kind.tag
  | .nested kind _ => kind.tag
  | .boolean _ => 0x08
  | .binary .. => 0x05
  | .pattern .. => 0x0B
  | .pointer .. => 0x0C
  | .scopedCode .. => 0x0F

/-- A text with its length, both counting the final zero byte. -/
def textBytes (s : String) : Bytes :=
  let utf8 := Bytes.ofText s
  Bytes.word (utf8.length + 1) ++ utf8 ++ [0]

/-- A text up to its zero byte. -/
def zeroEnded (s : String) : Bytes := Bytes.ofText s ++ [0]

/-- The whole form around some field bytes. -/
def enclose (fields : Bytes) : Bytes := Bytes.word (fields.length + 5) ++ fields ++ [0]

mutual

def Value.payload : Value → Bytes
  | .plain _ payload => payload
  | .textual _ text => textBytes text
  | .nested _ fields => enclose fields.bytes
  | .boolean b => [if b then 1 else 0]
  | .binary subtype data => Bytes.word data.length ++ subtype :: data
  | .pattern expression options => zeroEnded expression ++ zeroEnded options
  | .pointer collection id => textBytes collection ++ id
  | .scopedCode code scope =>
    let inner := textBytes code ++ enclose scope.bytes
    Bytes.word (inner.length + 4) ++ inner

def Fields.bytes : Fields → Bytes
  | .nil => []
  | .cons key value rest => value.tag :: (zeroEnded key ++ value.payload ++ rest.bytes)

end

def Fields.encode (fields : Fields) : Bytes := enclose fields.bytes

def Fields.toList : Fields → List (String × Value)
  | .nil => []
  | .cons key value rest => (key, value) :: rest.toList

def Fields.ofList : List (String × Value) → Fields
  | [] => .nil
  | (key, value) :: rest => .cons key value (ofList rest)

end DumpArchive.Document
