import Mathlib.Data.List.Basic
import Mathlib.Tactic.Common

namespace DistributedMesh

open Std (ExtTreeMap)

abbrev Bytes := List UInt8

def newline : UInt8 := 10

def utf8 (s : String) : Bytes := s.toList.flatMap String.utf8EncodeChar

/-- A line's CloudEvents attributes, every one but `data`. -/
structure Attributes where
  id : String
  source : String
  type : String
  subject : Option String
  time : Option String
  dataschema : String
  traceparent : Option String
  tracestate : Option String
deriving DecidableEq

/-- One record as a store reads it, with the object's bytes as its writer wrote them. -/
structure Line (Value : Type) where
  offset : Option Nat
  attributes : Attributes
  data : Value
  object : Bytes
deriving DecidableEq

variable {Value : Type}

def Line.kind (l : Line Value) : String := l.attributes.type

def Line.subject (l : Line Value) : String := l.attributes.subject.getD ""

/-- The `dataschema`s a store reads in one file, each with the check its records must pass. -/
structure Formats (Value : Type) where
  checks : ExtTreeMap String (Value → Except String Unit)
  any : Bool

def Formats.check (formats : Formats Value) (dataschema : String) (record : Value) :
    Except String Unit :=
  match formats.checks[dataschema]? with
  | some check =>
    match check record with
    | .ok () => .ok ()
    | .error e => .error s!"its {dataschema} record does not decode: {e}"
  | none =>
    if formats.any then .ok ()
    else
      let asked := dataschema.quote
      let read := formats.checks.keys.map String.quote
      .error s!"dataschema {asked}, this build reads {read} here"

/-- An object's fields as `serde_json` parses them, unknown fields denied. -/
structure Envelope (Value : Type) where
  len : Nat
  specversion : String
  id : String
  source : String
  type : String
  subject : Option String
  time : Option String
  datacontenttype : String
  dataschema : String
  traceparent : Option String
  tracestate : Option String
  data : Value
  crc32 : String

/-- What the codec takes from `serde_json`: a string's JSON text and an object's parse. -/
structure Serde (Value : Type) where
  json : String → String
  fromSlice : Bytes → Except String (Envelope Value)

def crcEntry (i : UInt32) : UInt32 :=
  (List.range 8).foldl (fun c _ => if c &&& 1 ≠ 0 then (0xEDB88320 : UInt32) ^^^ (c >>> 1) else c >>> 1) i

/-- CRC-32 (IEEE 802.3, reflected); `crcEntry` is what the source tabulates. -/
def crc32 (bytes : Bytes) : UInt32 :=
  (bytes.foldl (fun c b => crcEntry ((c ^^^ b.toUInt32) &&& 0xFF) ^^^ (c >>> 8))
    (0xFFFFFFFF : UInt32)) ^^^ 0xFFFFFFFF

def digits (n : Nat) : Nat := if n < 10 then 1 else digits (n / 10) + 1

def crcSuffix : Nat := 20

def specVersion : String := "1.0"

def dataContentType : String := "application/json"

def objectHead : Bytes := utf8 "\x7b\"len\":"

/-- Eight lowercase hex digits. -/
def hex8 (n : UInt32) : String :=
  let ds := Nat.toDigits 16 n.toNat
  String.ofList (List.replicate (8 - ds.length) '0' ++ ds)

def fieldText (serde : Serde Value) (name value : String) : Bytes :=
  utf8 s!",\"{name}\":" ++ utf8 (serde.json value)

def optionalText (serde : Serde Value) (name : String) (value : Option String) : Bytes :=
  (value.map (fieldText serde name)).getD []

/-- An object's bytes between its `len` and its `data`. -/
def objectRest (serde : Serde Value) (attributes : Attributes) : Bytes :=
  fieldText serde "specversion" specVersion ++ fieldText serde "id" attributes.id
    ++ fieldText serde "source" attributes.source ++ fieldText serde "type" attributes.type
    ++ optionalText serde "subject" attributes.subject ++ optionalText serde "time" attributes.time
    ++ fieldText serde "datacontenttype" dataContentType
    ++ fieldText serde "dataschema" attributes.dataschema
    ++ optionalText serde "traceparent" attributes.traceparent
    ++ optionalText serde "tracestate" attributes.tracestate ++ utf8 ",\"data\":"

/-- The length whose own digits complete `fixed` bytes; `none` where no width from 1 to 20 does. -/
def objectLen (fixed : Nat) : Option Nat :=
  ((List.range 20).map fun d => fixed + (d + 1)).find? fun n => digits n == n - fixed

/-- The object of one write: its `len`, its attributes in their order, `data` and its `crc32`. -/
def encodeObject (serde : Serde Value) (attributes : Attributes) (data : Bytes) : Option Bytes := do
  let rest := objectRest serde attributes
  let len ← objectLen (objectHead.length + rest.length + data.length + crcSuffix)
  let obj := objectHead ++ utf8 (toString len) ++ rest ++ data
  return obj ++ (utf8 ",\"crc32\":\"" ++ utf8 (hex8 (crc32 obj)) ++ utf8 "\"\x7d")

/-- The line of `obj`: a newline, the object, a newline. -/
def lineOf (obj : Bytes) : Bytes := newline :: (obj ++ [newline])

def encodeLine (serde : Serde Value) (attributes : Attributes) (data : Bytes) : Option Bytes :=
  (encodeObject serde attributes data).map lineOf

def isAsciiDigit (b : UInt8) : Bool := 48 ≤ b && b ≤ 57

def decimalValue (ds : Bytes) : Nat := Nat.ofDigitChars 10 (ds.map Char.ofUInt8) 0

/-- `str::parse::<usize>` of a run of ASCII digits. -/
def parseUsize (ds : Bytes) : Option Nat :=
  if ds = [] then none else if decimalValue ds < UInt64.size then some (decimalValue ds) else none

def hexValue (b : UInt8) : Option Nat :=
  if 48 ≤ b && b ≤ 57 then some (b.toNat - 48)
  else if 97 ≤ b && b ≤ 102 then some (b.toNat - 87)
  else if 65 ≤ b && b ≤ 70 then some (b.toNat - 55)
  else none

/-- `u32::from_str_radix(_, 16)` of eight bytes: a leading `+` is taken, and eight digits fit. -/
def parseHex (bytes : Bytes) : Option Nat :=
  let ds := if bytes.head? = some 43 then bytes.tail else bytes
  if ds = [] then none
  else ds.foldl (fun acc b => do return 16 * (← acc) + (← hexValue b)) (some 0)

/-- The run of digits that states an object's byte count. -/
def lenDigits (obj : Bytes) : Bytes := (obj.drop objectHead.length).takeWhile isAsciiDigit

/-- An object's `crc32` field as it is stated and as its bytes sum: equal, or why it is refused. -/
def checkCrc (obj : Bytes) : Except String Unit :=
  let hex := (obj.drop (obj.length - 10)).take 8
  if hex.any (128 ≤ ·) then .error "its crc32 is not hex"
  else
    match parseHex hex with
    | none =>
      let text := (String.ofList (hex.map Char.ofUInt8)).quote
      .error s!"its crc32 {text} is not hex"
    | some stated =>
      let actual := crc32 (obj.take (obj.length - crcSuffix))
      if stated ≠ actual.toNat then
        let states := hex8 (UInt32.ofNat stated)
        let sums := hex8 actual
        .error s!"its crc32 is {states} and its bytes sum to {sums}"
      else .ok ()

/-- The line of a parsed envelope, or why it is not one this build reads. -/
def lineOfEnvelope (formats : Formats Value) (obj : Bytes) (offset len : Nat)
    (env : Envelope Value) : Except String (Line Value) :=
  if env.len ≠ len then .error "its len field is not its first"
  else if env.specversion ≠ specVersion ∨ env.datacontenttype ≠ dataContentType then
    let spec := env.specversion.quote
    let content := env.datacontenttype.quote
    let ours := specVersion.quote
    let oursContent := dataContentType.quote
    .error s!"its specversion is {spec} and its datacontenttype {content}; this build reads {ours} and {oursContent}"
  else
    match formats.check env.dataschema env.data with
    | .error why => .error why
    | .ok () =>
      .ok {
        offset := some offset
        attributes := ⟨env.id, env.source, env.type, env.subject, env.time, env.dataschema,
          env.traceparent, env.tracestate⟩
        data := env.data
        object := obj }

/-- The line of the object `obj` at byte offset `offset`, or why it is not one. -/
def verify (serde : Serde Value) (formats : Formats Value) (obj : Bytes) (offset : Nat) :
    Except String (Line Value) :=
  if ¬ objectHead <+: obj then .error "it does not begin with its len"
  else
    match parseUsize (lenDigits obj) with
    | none => .error "its len is not a number"
    | some len =>
      if len ≠ obj.length then
        let held := obj.length
        .error s!"its len is {len} and the object holds {held} bytes"
      else if obj.length < objectHead.length + crcSuffix
          ∨ ¬ utf8 ",\"crc32\":\"" <+: obj.drop (obj.length - crcSuffix)
          ∨ ¬ utf8 "\"\x7d" <:+ obj then
        .error "it does not end with its crc32"
      else
        match checkCrc obj with
        | .error why => .error why
        | .ok () =>
          match serde.fromSlice obj with
          | .error e => .error s!"it does not parse: {e}"
          | .ok env => lineOfEnvelope formats obj offset len env

/-- What one scan of the bytes from an offset found. -/
structure Scan (Value : Type) where
  lines : List (Line Value)
  consumed : Nat
  tail : Option (Nat × Bytes)

/-- Scan `bytes`, standing at byte `at_` of the file, onto the lines read before them: every
terminated nonblank line verified, the first that does not verify naming its offset. -/
def scanLoop (serde : Serde Value) (formats : Formats Value) (bytes : Bytes) (at_ : Nat)
    (lines : List (Line Value)) : Except (Nat × String) (Scan Value) :=
  if newline ∈ bytes then
    let seg := bytes.takeWhile (· ≠ newline)
    let rest := bytes.drop (seg.length + 1)
    if seg = [] then scanLoop serde formats rest (at_ + (seg.length + 1)) lines
    else
      match verify serde formats seg at_ with
      | .error why => .error (at_, why)
      | .ok l => scanLoop serde formats rest (at_ + (seg.length + 1)) (lines ++ [l])
  else .ok ⟨lines, at_, if bytes = [] then none else some (at_, bytes)⟩
termination_by bytes.length
decreasing_by all_goals
  have := List.length_pos_of_mem ‹newline ∈ bytes›
  simp only [List.length_drop]
  omega

/-- Scan `bytes`, read from byte `start` of the file. -/
def scan (serde : Serde Value) (formats : Formats Value) (bytes : Bytes) (start : Nat) :
    Except (Nat × String) (Scan Value) :=
  scanLoop serde formats bytes start []

end DistributedMesh
