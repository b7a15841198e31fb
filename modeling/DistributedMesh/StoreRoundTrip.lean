import DistributedMesh.StoreScan

namespace DistributedMesh

variable {Value : Type}

/-- The canonical lowercase UUIDv7 that `EventId::parse` takes, and so every event id is. -/
def EventId.canonical (value : String) : Bool :=
  let b := utf8 value
  b.length == 36
    && b.zipIdx.all (fun c => if c.2 ∈ [8, 13, 18, 23] then c.1 == 45 else isAsciiDigit c.1 || (97 ≤ c.1 && c.1 ≤ 102))
    && b[14]? == some 55
    && (b[19]? == some 56 || b[19]? == some 57 || b[19]? == some 97 || b[19]? == some 98)

/-- A field's name and its text, where the field is there. -/
def optionalMember (serde : Serde Value) (name : String) (value : Option String) : List (String × Bytes) :=
  (value.map fun v => (name, utf8 (serde.json v))).toList

/-- An envelope's fields by name, each with its JSON text; `data` is the text of its value. -/
def Envelope.members (serde : Serde Value) (env : Envelope Value) (data : Bytes) : List (String × Bytes) :=
  [("len", utf8 (toString env.len)), ("specversion", utf8 (serde.json env.specversion)),
    ("id", utf8 (serde.json env.id)), ("source", utf8 (serde.json env.source)), ("type", utf8 (serde.json env.type))]
  ++ optionalMember serde "subject" env.subject ++ optionalMember serde "time" env.time
  ++ [("datacontenttype", utf8 (serde.json env.datacontenttype)), ("dataschema", utf8 (serde.json env.dataschema))]
  ++ optionalMember serde "traceparent" env.traceparent ++ optionalMember serde "tracestate" env.tracestate
  ++ [("data", data), ("crc32", utf8 (serde.json env.crc32))]

/-- One member of a JSON object. -/
def memberText (serde : Serde Value) (m : String × Bytes) : Bytes := utf8 (serde.json m.1) ++ (utf8 ":" ++ m.2)

/-- A JSON object of members, with no space between its tokens. -/
def objectText (serde : Serde Value) (members : List (String × Bytes)) : Bytes :=
  utf8 "\x7b" ++ List.intercalate (utf8 ",") (members.map (memberText serde)) ++ utf8 "\x7d"

/-- What the codec relies on `serde_json` for. `Compact text v` says that `text` is the compact JSON text of `v`. -/
structure Serde.RoundTrips (serde : Serde Value) (Compact : Bytes → Value → Prop) : Prop where
  -- a string's text escapes control characters, and letters and digits are their own text
  escapes : ∀ s, newline ∉ utf8 (serde.json s)
  plain : ∀ s, (∀ c ∈ s.toList, c.isAlphanum) → serde.json s = "\"" ++ s ++ "\""
  -- a compact value has no space outside its strings
  compact : ∀ text v, Compact text v → newline ∉ text
  -- an object whose members are the fields, in any order, reads as the envelope of them
  reads : ∀ (env : Envelope Value) (text : Bytes) (members : List (String × Bytes)), Compact text env.data →
    EventId.canonical env.id → env.len < UInt64.size → members.Perm (env.members serde text) →
    serde.fromSlice (objectText serde members) = .ok env

section Lengths

theorem digits_pos (n : Nat) : 0 < digits n := by
  rw [digits]
  split <;> omega

theorem digits_le_iff {n k : Nat} (hk : 0 < k) : digits n ≤ k ↔ n < 10 ^ k := by
  rw [digits_eq_length, Nat.length_toDigits_le_iff (by omega) hk]

theorem digits_mono {m n : Nat} (h : m ≤ n) : digits m ≤ digits n := by
  rw [digits_le_iff (digits_pos n)]
  exact Nat.lt_of_le_of_lt h ((digits_le_iff (digits_pos n)).mp (Nat.le_refl _))

/-- Some width is its own: at the least width that is enough, one less was not. -/
theorem objectLen_exists {fixed : Nat} (h : fixed + 20 < UInt64.size) : ∃ len, objectLen fixed = some len := by
  have hsize : UInt64.size ≤ 10 ^ 20 := by decide
  have henough : ∃ d, digits (fixed + (d + 1)) ≤ d + 1 :=
    ⟨19, (digits_le_iff (by omega)).mpr (by omega)⟩
  obtain ⟨d, hd, hleast⟩ : ∃ d, digits (fixed + (d + 1)) ≤ d + 1 ∧
      ∀ e < d, ¬ digits (fixed + (e + 1)) ≤ e + 1 := by
    classical
    exact ⟨Nat.find henough, Nat.find_spec henough, fun e he => Nat.find_min henough he⟩
  have hlt : d < 20 := by
    by_contra hge
    exact hleast 19 (by omega) ((digits_le_iff (by omega)).mpr (by omega))
  have hown : digits (fixed + (d + 1)) = d + 1 := by
    apply Nat.le_antisymm hd
    cases d with
    | zero => exact digits_pos _
    | succ e =>
      have hshort := hleast e (by omega)
      have hmono := digits_mono (by omega : fixed + (e + 1) ≤ fixed + (e + 1 + 1))
      omega
  rw [← Option.isSome_iff_exists, objectLen, List.find?_isSome]
  refine ⟨fixed + (d + 1), List.mem_map.mpr ⟨d, List.mem_range.mpr hlt, rfl⟩, ?_⟩
  rw [hown, beq_iff_eq]
  omega

end Lengths

section Encoding

variable {serde : Serde Value} {attributes : Attributes} {data obj : Bytes}

/-- The bytes whose number, with the digits of their count, is an object's length. -/
def fixedLen (serde : Serde Value) (attributes : Attributes) (data : Bytes) : Nat :=
  objectHead.length + (objectRest serde attributes).length + data.length + crcSuffix

/-- The envelope a write's object is the text of. -/
def envelopeOf (attributes : Attributes) (value : Value) (len : Nat) (crc : UInt32) : Envelope Value where
  len := len
  specversion := specVersion
  id := attributes.id
  source := attributes.source
  type := attributes.type
  subject := attributes.subject
  time := attributes.time
  datacontenttype := dataContentType
  dataschema := attributes.dataschema
  traceparent := attributes.traceparent
  tracestate := attributes.tracestate
  data := value
  crc32 := hex8 crc

theorem intercalate_cons {sep : Bytes} (x : Bytes) (xs : List Bytes) :
    List.intercalate sep (x :: xs) = x ++ xs.flatMap (sep ++ ·) := by
  induction xs generalizing x with
  | nil => simp [List.intercalate]
  | cons y ys ih =>
    rw [List.intercalate, List.intersperse_cons_cons, List.flatten_cons, List.flatten_cons, List.flatMap_cons]
    have hrest : (List.intersperse sep (y :: ys)).flatten = y ++ ys.flatMap (sep ++ ·) := ih y
    rw [hrest, List.append_assoc]

theorem utf8_append (s t : String) : utf8 (s ++ t) = utf8 s ++ utf8 t := by
  simp [utf8]

variable {Compact : Bytes → Value → Prop}

/-- A field as the encoder writes it is a member after a comma. -/
theorem Serde.RoundTrips.fieldText_eq (h : serde.RoundTrips Compact) {name : String}
    (hname : ∀ c ∈ name.toList, c.isAlphanum) (text : Bytes) :
    utf8 s!",\"{name}\":" ++ text = utf8 "," ++ memberText serde (name, text) := by
  unfold memberText
  rw [h.plain name hname]
  simp only [utf8_append, toString, List.append_assoc]
  rfl

theorem Serde.RoundTrips.optionalText_eq (h : serde.RoundTrips Compact) (name : String)
    (hname : ∀ c ∈ name.toList, c.isAlphanum) (value : Option String) :
    optionalText serde name value = (optionalMember serde name value).flatMap fun m => utf8 "," ++ memberText serde m := by
  cases value with
  | none => rfl
  | some v =>
    have hfield := h.fieldText_eq hname (utf8 (serde.json v))
    simpa [optionalText, optionalMember, fieldText] using hfield

theorem alphanum_of_all {name : String} (h : name.toList.all Char.isAlphanum = true) : ∀ c ∈ name.toList, c.isAlphanum :=
  List.all_eq_true.mp h

theorem hex8_alphanum (n : UInt32) : ∀ c ∈ (hex8 n).toList, c.isAlphanum := by
  have hdigit : ∀ d < 16, (Nat.digitChar d).isAlphanum := by decide
  intro c hc
  rw [hex8, String.toList_ofList] at hc
  rcases List.mem_append.mp hc with hc | hc
  · rw [(List.mem_replicate.mp hc).2]
    decide
  · obtain ⟨d, hd, rfl⟩ := toDigits_mem (by omega) hc
    exact hdigit d hd

/-- The bytes of an object of length `len` that its checksum sums. -/
def summed (serde : Serde Value) (attributes : Attributes) (data : Bytes) (len : Nat) : Bytes :=
  objectHead ++ utf8 (toString len) ++ objectRest serde attributes ++ data

/-- The field a checksum stands in, after the bytes it sums. -/
def crcField (pre : Bytes) : Bytes := utf8 ",\"crc32\":\"" ++ utf8 (hex8 (crc32 pre)) ++ utf8 "\"\x7d"

/-- An object of length `len`. -/
def objectOf (serde : Serde Value) (attributes : Attributes) (data : Bytes) (len : Nat) : Bytes :=
  summed serde attributes data len ++ crcField (summed serde attributes data len)

theorem encodeObject_eq (serde : Serde Value) (attributes : Attributes) (data : Bytes) :
    encodeObject serde attributes data = (objectLen (fixedLen serde attributes data)).map (objectOf serde attributes data) := by
  rw [Option.map_eq_bind]
  rfl

theorem objectText_cons (serde : Serde Value) (m : String × Bytes) (ms : List (String × Bytes)) :
    objectText serde (m :: ms)
      = utf8 "\x7b" ++ (memberText serde m ++ ms.flatMap fun m => utf8 "," ++ memberText serde m) ++ utf8 "\x7d" := by
  rw [objectText, List.map_cons, intercalate_cons, List.flatMap_map]

/-- An object is the JSON object of its envelope's fields, in the order the struct declares them. -/
theorem Serde.RoundTrips.objectOf_eq (h : serde.RoundTrips Compact) (value : Value) (len : Nat) :
    objectOf serde attributes data len = objectText serde
      ((envelopeOf attributes value len (crc32 (summed serde attributes data len))).members serde data) := by
  unfold objectOf crcField
  generalize crc32 _ = crc
  have hfield : ∀ name : String, (∀ c ∈ name.toList, c.isAlphanum) → ∀ v,
      fieldText serde name v = utf8 "," ++ memberText serde (name, utf8 (serde.json v)) :=
    fun name hname v => h.fieldText_eq hname (utf8 (serde.json v))
  have hlen : memberText serde ("len", utf8 (toString len)) = utf8 "\"len\":" ++ utf8 (toString len) := by
    rw [memberText, h.plain "len" (alphanum_of_all rfl)]
    rfl
  have hdata : utf8 "," ++ memberText serde ("data", data) = utf8 ",\"data\":" ++ data := by
    rw [memberText, h.plain "data" (alphanum_of_all rfl)]
    rfl
  have hcrc : utf8 "," ++ memberText serde ("crc32", utf8 (serde.json (hex8 crc)))
      = utf8 ",\"crc32\":\"" ++ utf8 (hex8 crc) ++ utf8 "\"" := by
    have htext : utf8 (serde.json (hex8 crc)) = utf8 "\"" ++ (utf8 (hex8 crc) ++ utf8 "\"") := by
      rw [h.plain (hex8 crc) (hex8_alphanum crc), utf8_append, utf8_append, List.append_assoc]
    rw [memberText, h.plain "crc32" (alphanum_of_all rfl), htext, List.append_assoc]
    rfl
  have hhead : objectHead = utf8 "\x7b" ++ utf8 "\"len\":" := rfl
  have hclose : utf8 "\"\x7d" = utf8 "\"" ++ utf8 "\x7d" := rfl
  simp only [Envelope.members, envelopeOf, List.cons_append, List.nil_append, objectText_cons, List.flatMap_append,
    List.flatMap_cons, List.flatMap_nil, ← h.optionalText_eq "subject" (alphanum_of_all rfl),
    ← h.optionalText_eq "time" (alphanum_of_all rfl), ← h.optionalText_eq "traceparent" (alphanum_of_all rfl),
    ← h.optionalText_eq "tracestate" (alphanum_of_all rfl), ← hfield "specversion" (alphanum_of_all rfl),
    ← hfield "id" (alphanum_of_all rfl), ← hfield "source" (alphanum_of_all rfl),
    ← hfield "type" (alphanum_of_all rfl), ← hfield "datacontenttype" (alphanum_of_all rfl),
    ← hfield "dataschema" (alphanum_of_all rfl), hlen, hdata, hcrc, hhead, hclose, summed, objectRest, List.append_assoc, List.append_nil]

end Encoding

section Verifying

/-- One hex digit onto the number before it. -/
def hexStep (acc : Option Nat) (b : UInt8) : Option Nat := do return 16 * (← acc) + (← hexValue b)

theorem hexStep_digit {d : Nat} (hd : d < 16) (n : Nat) :
    (String.utf8EncodeChar (Nat.digitChar d)).foldl hexStep (some n) = some (16 * n + d) := by
  interval_cases d <;> rfl

theorem foldl_hexStep (n : Nat) :
    ((Nat.toDigits 16 n).flatMap String.utf8EncodeChar).foldl hexStep (some 0) = some n := by
  induction n using Nat.strongRecOn with
  | ind n ih =>
    rw [Nat.toDigits_eq_if (by omega)]
    split
    next h =>
      rw [List.flatMap_singleton, hexStep_digit h, Nat.mul_zero, Nat.zero_add]
    next h =>
      rw [List.flatMap_append, List.foldl_append, ih (n / 16) (by omega), List.flatMap_singleton,
        hexStep_digit (Nat.mod_lt n (by omega)), Nat.div_add_mod]

theorem foldl_hexStep_zeros (k : Nat) :
    ((List.replicate k '0').flatMap String.utf8EncodeChar).foldl hexStep (some 0) = some 0 := by
  induction k with
  | zero => rfl
  | succ k ih =>
    rw [List.replicate_succ, List.flatMap_cons, List.foldl_append]
    exact ih

theorem hex8_digits (n : UInt32) : ∀ b ∈ utf8 (hex8 n), b < 128 ∧ b ≠ 43 := by
  have hdigit : ∀ d < 16, ∀ b ∈ String.utf8EncodeChar (Nat.digitChar d), b < 128 ∧ b ≠ 43 := by
    decide +kernel
  intro b hb
  rw [utf8, hex8, String.toList_ofList] at hb
  obtain ⟨c, hc, hb⟩ := List.mem_flatMap.mp hb
  rcases List.mem_append.mp hc with hc | hc
  · rw [(List.mem_replicate.mp hc).2] at hb
    exact hdigit 0 (by omega) b hb
  · obtain ⟨d, hd, rfl⟩ := toDigits_mem (by omega) hc
    exact hdigit d hd b hb

/-- The eight digits of a checksum are read as it. -/
theorem parseHex_hex8 (n : UInt32) : parseHex (utf8 (hex8 n)) = some n.toNat := by
  have hunsigned : (utf8 (hex8 n)).head? ≠ some 43 := by
    intro h
    exact (hex8_digits n 43 (List.mem_of_head? h)).2 rfl
  have hsome : utf8 (hex8 n) ≠ [] := by
    intro h
    have hlen := (hex8_utf8 n).2
    rw [h] at hlen
    exact absurd hlen (by decide)
  unfold parseHex
  simp only [if_neg hunsigned, if_neg hsome]
  calc (utf8 (hex8 n)).foldl hexStep (some 0)
      = ((Nat.toDigits 16 n.toNat).flatMap String.utf8EncodeChar).foldl hexStep (some 0) := by
        rw [utf8, hex8, String.toList_ofList, List.flatMap_append, List.foldl_append, foldl_hexStep_zeros]
    _ = some n.toNat := foldl_hexStep n.toNat

variable {serde : Serde Value} {formats : Formats Value} {obj pre hex : Bytes} {offset : Nat}

theorem length_crcField (pre : Bytes) : (crcField pre).length = crcSuffix := by
  have hopen : (utf8 ",\"crc32\":\"").length = 10 := by decide
  have hclose : (utf8 "\"\x7d").length = 2 := by decide
  rw [crcField, List.length_append, List.length_append, hopen, hclose, (hex8_utf8 _).2]
  rfl

theorem checkCrc_crcField (pre : Bytes) : checkCrc (pre ++ crcField pre) = .ok () := by
  have hlen : (pre ++ crcField pre).length = pre.length + crcSuffix := by
    rw [List.length_append, length_crcField]
  have hsums : (pre ++ crcField pre).take ((pre ++ crcField pre).length - crcSuffix) = pre := by
    rw [hlen, Nat.add_sub_cancel, List.take_left]
  have hopen : (utf8 ",\"crc32\":\"").length = 10 := by decide
  have hhex : ((pre ++ crcField pre).drop ((pre ++ crcField pre).length - 10)).take 8 = utf8 (hex8 (crc32 pre)) := by
    rw [hlen, show pre.length + crcSuffix - 10 = pre.length + 10 from rfl, List.drop_length_add_append, crcField,
      List.append_assoc, ← hopen, List.drop_left, ← (hex8_utf8 (crc32 pre)).2, List.take_left]
  have hascii : (utf8 (hex8 (crc32 pre))).any (128 ≤ ·) = false := by
    rw [List.any_eq_false]
    intro b hb
    have hlt := (hex8_digits _ b hb).1
    simpa using hlt
  unfold checkCrc
  simp only [hhex, hsums, hascii, parseHex_hex8]
  simp

/-- A framed object that ends with the checksum of its bytes is what its fields are. -/
theorem verify_whole (hobj : obj = pre ++ crcField pre) (hf : Framed obj) (hhead : objectHead.length ≤ pre.length)
    (hfits : obj.length < UInt64.size) {env : Envelope Value} (hread : serde.fromSlice obj = .ok env) :
    verify serde formats obj offset = lineOfEnvelope formats obj offset obj.length env := by
  have hlen : obj.length = pre.length + crcSuffix := by
    rw [hobj, List.length_append, length_crcField]
  have hparse : parseUsize (lenDigits obj) = some obj.length := by
    have hdigits : lenDigits obj ≠ [] := by
      intro hnil
      have hstated := hf.stated
      rw [hnil, hlen] at hstated
      have hpos : crcSuffix = 20 := rfl
      have hzero : decimalValue [] = 0 := rfl
      omega
    rw [parseUsize, if_neg hdigits, hf.stated, if_pos hfits]
  have hfield : utf8 ",\"crc32\":\"" <+: obj.drop (obj.length - crcSuffix) := by
    rw [hlen, Nat.add_sub_cancel, hobj, List.drop_left, crcField, List.append_assoc]
    exact List.prefix_append _ _
  have hend : utf8 "\"\x7d" <:+ obj := by
    rw [hobj, crcField, ← List.append_assoc]
    exact List.suffix_append _ _
  have hcheck : checkCrc obj = .ok () := hobj ▸ checkCrc_crcField pre
  unfold verify
  rw [if_neg (not_not_intro hf.begins), hparse]
  simp only [ne_eq, not_true_eq_false, if_false, hfield, hend, or_false, hcheck, hread]
  rw [if_neg (by omega)]

/-- What an accepted object states is its byte count. -/
theorem verify_stated {l : Line Value} (h : verify serde formats obj offset = .ok l) :
    decimalValue (lenDigits obj) = obj.length := by
  unfold verify at h
  split at h
  next => simp at h
  next =>
    split at h
    next => simp at h
    next len hlen =>
      split at h
      next => simp at h
      next heq => rw [parseUsize_value hlen, not_ne_iff.mp heq]

theorem verify_prefix_refused {p : Bytes} (hf : Framed obj) (hp : p <+: obj) (hne : p ≠ obj) :
    ∃ why, verify serde formats p offset = .error why := by
  cases h : verify serde formats p offset with
  | error why => exact ⟨why, rfl⟩
  | ok l =>
    have hunbroken : newline ∉ p := fun hm => hf.unbroken (hp.subset hm)
    exact absurd ((verify_framed h hunbroken).eq_of_extends hf hp) hne

theorem verify_extension_refused {e : Bytes} (hf : Framed obj) (he : obj <+: e) (hne : e ≠ obj) :
    ∃ why, verify serde formats e offset = .error why := by
  cases h : verify serde formats e offset with
  | error why => exact ⟨why, rfl⟩
  | ok l =>
    have hlen := verify_stated h
    rw [lenDigits_of_extends hf he, hf.stated] at hlen
    exact absurd (he.eq_of_length hlen).symm hne

end Verifying

section RoundTrip

variable {serde : Serde Value} {formats : Formats Value} {Compact : Bytes → Value → Prop}

/-- One write to a store: its attributes, its data's bytes and the value they are the text of. -/
structure Write (Value : Type) where
  attributes : Attributes
  data : Bytes
  value : Value

/-- A write as the code can make one and the formats read: its id is an event id, its data is one compact value of a
schema that accepts it, and its object has a length a `usize` can count. -/
structure Write.Valid (serde : Serde Value) (formats : Formats Value) (Compact : Bytes → Value → Prop)
    (w : Write Value) : Prop where
  id : EventId.canonical w.attributes.id
  compact : Compact w.data w.value
  fits : fixedLen serde w.attributes w.data + 20 < UInt64.size
  accepted : formats.check w.attributes.dataschema w.value = .ok ()

variable {w : Write Value}

theorem objectOf_framed (h : serde.RoundTrips Compact) (hw : w.Valid serde formats Compact) {len : Nat}
    (hlen : objectLen (fixedLen serde w.attributes w.data) = some len) :
    Framed (objectOf serde w.attributes w.data len) := by
  apply encodeObject_framed h.escapes (h.compact _ _ hw.compact)
  rw [encodeObject_eq, hlen]
  rfl

theorem length_objectOf (serde : Serde Value) (attributes : Attributes) (data : Bytes) {len : Nat}
    (hlen : objectLen (fixedLen serde attributes data) = some len) :
    (objectOf serde attributes data len).length = len := by
  have hspec := objectLen_spec hlen
  have hdigits := (utf8_toString len).1
  rw [objectOf, List.length_append, length_crcField, summed]
  simp only [List.length_append, hdigits]
  rw [fixedLen] at hspec
  omega

theorem objectLen_le {fixed len : Nat} (h : objectLen fixed = some len) : len ≤ fixed + 20 := by
  obtain ⟨d, hd, rfl⟩ := List.mem_map.mp (List.mem_of_find?_eq_some h)
  have hlt := List.mem_range.mp hd
  omega

theorem fromSlice_objectOf (h : serde.RoundTrips Compact) (hw : w.Valid serde formats Compact) {len : Nat}
    (hfits : len < UInt64.size) :
    serde.fromSlice (objectOf serde w.attributes w.data len)
      = .ok (envelopeOf w.attributes w.value len (crc32 (summed serde w.attributes w.data len))) := by
  rw [h.objectOf_eq w.value len]
  exact h.reads _ _ _ hw.compact hw.id hfits (List.Perm.refl _)

theorem lineOfEnvelope_envelopeOf {attributes : Attributes} {value : Value} {len offset : Nat} {crc : UInt32} {obj : Bytes}
    (haccepted : formats.check attributes.dataschema value = .ok ()) :
    lineOfEnvelope formats obj offset len (envelopeOf attributes value len crc)
      = .ok ⟨some offset, attributes, value, obj⟩ := by
  unfold lineOfEnvelope envelopeOf
  simp only [ne_eq, not_true_eq_false, or_false, if_false, haccepted]

theorem verify_objectOf (h : serde.RoundTrips Compact) (hw : w.Valid serde formats Compact) {len : Nat}
    (hlen : objectLen (fixedLen serde w.attributes w.data) = some len) (offset : Nat) :
    verify serde formats (objectOf serde w.attributes w.data len) offset
      = .ok ⟨some offset, w.attributes, w.value, objectOf serde w.attributes w.data len⟩ := by
  have hlength := length_objectOf serde w.attributes w.data hlen
  have hfits : len < UInt64.size := Nat.lt_of_le_of_lt (objectLen_le hlen) hw.fits
  have hhead : objectHead.length ≤ (summed serde w.attributes w.data len).length := by
    rw [summed]
    simp only [List.length_append]
    omega
  have hobj : objectOf serde w.attributes w.data len
      = summed serde w.attributes w.data len ++ crcField (summed serde w.attributes w.data len) := rfl
  have hwhole : verify serde formats (objectOf serde w.attributes w.data len) offset = lineOfEnvelope formats
      (objectOf serde w.attributes w.data len) offset (objectOf serde w.attributes w.data len).length
      (envelopeOf w.attributes w.value len (crc32 (summed serde w.attributes w.data len))) :=
    verify_whole hobj (objectOf_framed h hw hlen) hhead (by rw [hlength]; exact hfits) (fromSlice_objectOf h hw hfits)
  rw [hwhole, hlength]
  exact lineOfEnvelope_envelopeOf hw.accepted

/-- A value written by `encode_object` is found again in its object, in nothing shorter and in nothing longer. -/
theorem encodeObject_found (h : serde.RoundTrips Compact) (hw : w.Valid serde formats Compact) :
    ∃ obj rest, encodeObject serde w.attributes w.data = some obj ∧
      obj = objectHead ++ utf8 (toString obj.length) ++ 44 :: rest ∧ newline ∉ obj ∧
      (∀ offset, verify serde formats obj offset = .ok ⟨some offset, w.attributes, w.value, obj⟩) ∧
      (∀ p, p <+: obj → p ≠ obj → ∀ offset, ∃ why, verify serde formats p offset = .error why) ∧
      ∀ e, obj <+: e → e ≠ obj → ∀ offset, ∃ why, verify serde formats e offset = .error why := by
  obtain ⟨len, hlen⟩ := objectLen_exists hw.fits
  obtain ⟨rest, hrest⟩ := objectRest_head serde w.attributes
  have hf := objectOf_framed h hw hlen
  refine ⟨objectOf serde w.attributes w.data len,
    rest ++ w.data ++ crcField (summed serde w.attributes w.data len), ?_, ?_, hf.unbroken, ?_, ?_, ?_⟩
  · rw [encodeObject_eq, hlen]
    rfl
  · rw [length_objectOf serde w.attributes w.data hlen, objectOf, summed, hrest]
    simp only [List.append_assoc, List.cons_append]
  · exact verify_objectOf h hw hlen
  · exact fun p hp hne offset => verify_prefix_refused hf hp hne
  · exact fun e he hne offset => verify_extension_refused hf he hne

/-- The bytes of writes, one line after another. -/
def encodeLines (serde : Serde Value) (ws : List (Write Value)) : Bytes :=
  ws.flatMap fun w => (encodeLine serde w.attributes w.data).getD []

/-- The lines of writes whose bytes begin at `start` of a file: each object stands after its line's first newline. -/
def linesAt (serde : Serde Value) : Nat → List (Write Value) → List (Line Value)
  | _, [] => []
  | start, w :: ws =>
    ⟨some (start + 1), w.attributes, w.value, (encodeObject serde w.attributes w.data).getD []⟩
      :: linesAt serde (start + ((encodeLine serde w.attributes w.data).getD []).length) ws

theorem scanLoop_encodeLines (h : serde.RoundTrips Compact) {ws : List (Write Value)}
    (hws : ∀ w ∈ ws, w.Valid serde formats Compact) (start : Nat) (ls : List (Line Value)) :
    scanLoop serde formats (encodeLines serde ws) start ls
      = .ok ⟨ls ++ linesAt serde start ws, start + (encodeLines serde ws).length, none⟩ := by
  induction ws generalizing start ls with
  | nil =>
    rw [show encodeLines serde [] = [] from rfl, scanLoop_unended (by simp)]
    simp [linesAt]
  | cons w ws ih =>
    obtain ⟨obj, rest, hobj, heq, hunbroken, hverify, -, -⟩ := encodeObject_found h (hws w List.mem_cons_self)
    have hne : obj ≠ [] := by
      rintro rfl
      simp at heq
    have hline : encodeLine serde w.attributes w.data = some (lineOf obj) := by
      rw [encodeLine, hobj]
      rfl
    have hbytes : encodeLines serde (w :: ws) = [] ++ newline :: (obj ++ newline :: encodeLines serde ws) := by
      rw [encodeLines, List.flatMap_cons, hline, Option.getD_some, lineOf]
      simp [encodeLines]
    rw [hbytes, scanLoop_line _ (by simp), if_pos rfl, scanLoop_line _ hunbroken, if_neg hne, hverify]
    simp only [ih fun w' hw' => hws w' (List.mem_cons_of_mem w hw')]
    have hlength : (lineOf obj).length = obj.length + 2 := by
      simp [lineOf]
    have hstart : start + (([] : Bytes).length + 1) + (obj.length + 1) = start + (lineOf obj).length := by
      rw [hlength, List.length_nil]
      omega
    rw [hstart, linesAt, hline, hobj]
    simp only [Option.getD_some, List.append_assoc, List.singleton_append, List.length_nil, Nat.zero_add, List.nil_append,
      List.length_cons, List.length_append]
    congr 2
    omega

/-- The store's codec: every write's object is found again, whole and alone, and lines of writes scan back to them. -/
theorem store_object_round_trip (h : serde.RoundTrips Compact) :
    (∀ w : Write Value, w.Valid serde formats Compact →
      ∃ obj rest, encodeObject serde w.attributes w.data = some obj ∧
        obj = objectHead ++ utf8 (toString obj.length) ++ 44 :: rest ∧ newline ∉ obj ∧
        (∀ offset, verify serde formats obj offset = .ok ⟨some offset, w.attributes, w.value, obj⟩) ∧
        (∀ p, p <+: obj → p ≠ obj → ∀ offset, ∃ why, verify serde formats p offset = .error why) ∧
        ∀ e, obj <+: e → e ≠ obj → ∀ offset, ∃ why, verify serde formats e offset = .error why) ∧
    ∀ ws : List (Write Value), (∀ w ∈ ws, w.Valid serde formats Compact) → ∀ start,
      scan serde formats (encodeLines serde ws) start
        = .ok ⟨linesAt serde start ws, start + (encodeLines serde ws).length, none⟩ := by
  constructor
  · exact fun w hw => encodeObject_found h hw
  · intro ws hws start
    rw [scan, scanLoop_encodeLines h hws, List.nil_append]

end RoundTrip

end DistributedMesh
