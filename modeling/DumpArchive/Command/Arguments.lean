import DumpArchive.Dump
import DumpArchive.Namespace
import DumpArchive.Report

/-! The command line. Options and operands stand in any order; an option that is
not repeatable stands once, though each output option may stand once before and once after the
command, and the later one counts. -/
namespace DumpArchive.Command

inductive LogFormat where
  | text
  | json
  deriving DecidableEq, Repr

inductive LogLevel where
  | error
  | warn
  | info
  | debug
  | trace
  deriving DecidableEq, Repr

structure PackArgs where
  directory : String
  archive : String
  concurrency : UInt64
  excluded : List String
  excludedStarts : List String
  deriving DecidableEq, Repr

structure UnpackArgs where
  archive : String
  out : String
  namespaces : List Namespace
  deriving DecidableEq, Repr

inductive Action where
  | pack (args : PackArgs)
  | unpack (args : UnpackArgs)
  | inspect (archive : String)
  | verify (archive : String)
  | version
  deriving DecidableEq, Repr

structure Invocation where
  format : OutputFormat
  logFormat : LogFormat
  logLevel : LogLevel
  action : Action
  deriving DecidableEq, Repr

namespace Arguments

inductive Key where
  | format
  | logFormat
  | logLevel
  | archive
  | concurrency
  | excludeCollection
  | excludeStart
  | out
  | namespaces
  deriving DecidableEq, Repr

/-- An option that takes a value. -/
structure Switch where
  long : String
  short : Option Char
  key : Key

/-- Options that every command has, before it and after it. -/
def outputSwitches : List Switch :=
  [⟨"format", none, .format⟩, ⟨"log-format", none, .logFormat⟩, ⟨"log-level", none, .logLevel⟩]

def packSwitches : List Switch :=
  [⟨"archive", none, .archive⟩, ⟨"concurrency", some 'j', .concurrency⟩,
    ⟨"exclude-collection", none, .excludeCollection⟩,
    ⟨"exclude-collection-prefix", none, .excludeStart⟩]

def unpackSwitches : List Switch := [⟨"out", none, .out⟩, ⟨"namespace", none, .namespaces⟩]

/-- What a word is by itself. -/
inductive Word where
  | operand
  /-- All words after it are operands. -/
  | mark
  | valued (key : Key) (value : String)
  | expecting (key : Key)
  | unknown

def classify (switches : List Switch) (word : String) : Word :=
  match word.toList with
  | ['-'] => .operand
  | ['-', '-'] => .mark
  | '-' :: '-' :: name =>
    let (name, tail) := name.span (· ≠ '=')
    match switches.find? (·.long = String.ofList name) with
    | none => .unknown
    | some s => match tail with
      | [] => .expecting s.key
      | _ :: value => .valued s.key (String.ofList value)
  | '-' :: c :: tail =>
    match switches.find? (·.short = some c) with
    | none => .unknown
    | some s => match tail with
      | [] => .expecting s.key
      | '=' :: value => .valued s.key (String.ofList value)
      | value => .valued s.key (String.ofList value)
  | _ => .operand

/-- Whether a word can be the value of the option before it. -/
def isValue (word : String) : Bool := word = "-" || word.toList.head? ≠ some '-'

abbrev Values := List (Key × String)

/-- The options of a command and its operands. -/
def scan (switches : List Switch) : List String → Option (Values × List String)
  | [] => some ([], [])
  | word :: rest => match classify switches word with
    | .operand => (scan switches rest).map fun (values, operands) => (values, word :: operands)
    | .mark => some ([], rest)
    | .valued key value =>
      (scan switches rest).map fun (values, operands) => ((key, value) :: values, operands)
    | .expecting key => match rest with
      | [] => none
      | value :: rest =>
        if isValue value then
          (scan switches rest).map fun (values, operands) => ((key, value) :: values, operands)
        else none
    | .unknown => none

/-- The options before the command, the command and the words after it. -/
def scanCommand : List String → Option (Values × String × List String)
  | [] => none
  | word :: rest => match classify outputSwitches word with
    | .operand => some ([], word, rest)
    | .valued key value =>
      (scanCommand rest).map fun (values, command) => ((key, value) :: values, command)
    | .expecting key => match rest with
      | [] => none
      | value :: rest =>
        if isValue value then
          (scanCommand rest).map fun (values, command) => ((key, value) :: values, command)
        else none
    | .mark | .unknown => none

def all (key : Key) (values : Values) : List String :=
  (values.filter (·.1 = key)).map (·.2)

/-- The value of an option that may stand once. -/
def atMostOne? (key : Key) (values : Values) : Option (Option String) :=
  match all key values with
  | [] => some none
  | [value] => some (some value)
  | _ => none

def one? (key : Key) (values : Values) : Option String := do (← atMostOne? key values)

def operand? : List String → Option String
  | [operand] => some operand
  | _ => none

/-- A path that names something. -/
def path? (text : String) : Option String := if text = "" then none else some text

def format? : String → Option OutputFormat
  | "json" => some .json
  | "table" => some .table
  | "pretty" => some .pretty
  | _ => none

def logFormat? : String → Option LogFormat
  | "text" => some .text
  | "json" => some .json
  | _ => none

def logLevel? : String → Option LogLevel
  | "error" => some .error
  | "warn" => some .warn
  | "info" => some .info
  | "debug" => some .debug
  | "trace" => some .trace
  | _ => none

/-- An unsigned machine word in decimal digits; a plus sign may stand before them. -/
def word? (text : String) : Option UInt64 :=
  let digits := match text.toList with
    | '+' :: rest => rest
    | digits => digits
  if digits ≠ [] ∧ digits.all Char.isDigit then
    let n := digits.foldl (fun n c => n * 10 + (c.toNat - '0'.toNat)) 0
    if n < UInt64.size then some (UInt64.ofNat n) else none
  else none

/-- An output option: every value must be readable, the one after the command counts. -/
def output? {α : Type} (key : Key) (read : String → Option α) (absent : α)
    (before after : Values) : Option α := do
  let first ← atMostOne? key before
  let second ← atMostOne? key after
  let first ← (first.mapM read : Option (Option α))
  let second ← (second.mapM read : Option (Option α))
  return second.getD (first.getD absent)

def action? (command : String) (values : Values) (operands : List String) : Option Action := do
  match command with
  | "pack" =>
    let directory ← (operand? operands).bind path?
    let archive ← one? .archive values
    let concurrency ← atMostOne? .concurrency values
    let concurrency ← (concurrency.mapM word? : Option (Option UInt64))
    return .pack ⟨directory, archive, concurrency.getD Dump.defaultConcurrency,
      all .excludeCollection values, all .excludeStart values⟩
  | "unpack" =>
    let archive ← operand? operands
    let out ← (one? .out values).bind path?
    let namespaces ← (all .namespaces values).mapM Namespace.parse?
    return .unpack ⟨archive, out, namespaces⟩
  | "inspect" => return .inspect (← operand? operands)
  | "verify" => return .verify (← operand? operands)
  | "version" => if operands = [] then return .version else none
  | _ => none

def switchesOf (command : String) : List Switch :=
  outputSwitches ++ match command with
    | "pack" => packSwitches
    | "unpack" => unpackSwitches
    | _ => []

/-- Nothing if the words are not a proper invocation. -/
def parse? (words : List String) : Option Invocation := do
  let (before, command, rest) ← scanCommand words
  let (after, operands) ← scan (switchesOf command) rest
  let action ← action? command after operands
  let format ← output? .format format? .json before after
  let logFormat ← output? .logFormat logFormat? .text before after
  let logLevel ← output? .logLevel logLevel? .info before after
  return ⟨format, logFormat, logLevel, action⟩

end Arguments
end DumpArchive.Command
