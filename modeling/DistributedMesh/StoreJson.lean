import DistributedMesh.ByteFormats
import DistributedMesh.StoreRoundTrip

namespace DistributedMesh

namespace StoreJson

open ByteFormats (forall_byte utf8Encode_injective)

section Literals

def hexByte (n : UInt8) : UInt8 := if n < 10 then 48 + n else 87 + n

/-- A byte of a JSON string: quotes, backslashes and control characters are escaped. -/
def escapeByte (b : UInt8) : Bytes :=
  if b = 34 then [92, 34]
  else if b = 92 then [92, 92]
  else if b = 8 then [92, 98]
  else if b = 9 then [92, 116]
  else if b = 10 then [92, 110]
  else if b = 12 then [92, 102]
  else if b = 13 then [92, 114]
  else if b < 32 then [92, 117, 48, 48, hexByte (b / 16), hexByte (b % 16)]
  else [b]

def escapeChar (c : Char) : List Char :=
  if c.toNat < 128 then (escapeByte c.toUInt8).map Char.ofUInt8 else [c]

/-- A string's JSON text. -/
def json (s : String) : String := String.ofList ('"' :: (s.toList.flatMap escapeChar ++ ['"']))

/-- The bytes of a string's JSON text. -/
def literal (bytes : Bytes) : Bytes := 34 :: (bytes.flatMap escapeByte ++ [34])

theorem utf8EncodeChar_high {c : Char} (hc : 128 ≤ c.toNat) : ∀ b ∈ String.utf8EncodeChar c, 128 ≤ b := by
  have hbyte : ∀ n m : Nat, 128 ≤ m → n + m < 256 → (128 : UInt8) ≤ UInt8.ofNat (n + m) := by
    intro n m hm hlt
    rw [UInt8.le_iff_toNat_le, UInt8.toNat_ofNat', Nat.mod_eq_of_lt hlt]
    exact Nat.le_trans hm (Nat.le_add_left m n)
  intro b hb
  unfold String.utf8EncodeChar at hb
  have hv : ¬ c.val.toNat ≤ 0x7f := by
    have : c.toNat = c.val.toNat := rfl
    omega
  simp only [if_neg hv] at hb
  split at hb
  · simp only [List.mem_cons, List.not_mem_nil, or_false] at hb
    rcases hb with rfl | rfl
    all_goals exact hbyte _ _ (by omega) (by omega)
  · split at hb
    · simp only [List.mem_cons, List.not_mem_nil, or_false] at hb
      rcases hb with rfl | rfl | rfl
      all_goals exact hbyte _ _ (by omega) (by omega)
    · simp only [List.mem_cons, List.not_mem_nil, or_false] at hb
      rcases hb with rfl | rfl | rfl | rfl
      all_goals exact hbyte _ _ (by omega) (by omega)

/-- The bytes a JSON string escapes. -/
def escapedBytes : Bytes := 34 :: 92 :: (List.range 32).map UInt8.ofNat

/-- A byte is its own text, or an escape is; there is no line break in either. -/
theorem escapeByte_spec (b : UInt8) : newline ∉ escapeByte b ∧
    ((escapeByte b = [b] ∧ b ≠ 92 ∧ b ≠ 34) ∨ (b < 128 ∧ b ∈ escapedBytes ∧ (escapeByte b).head? = some 92)) := by
  revert b
  apply forall_byte
  decide +kernel

theorem escapeByte_high {b : UInt8} (hb : 128 ≤ b) : escapeByte b = [b] := by
  rcases (escapeByte_spec b).2 with ⟨hself, -, -⟩ | ⟨hlow, -, -⟩
  · exact hself
  · exact absurd hb (UInt8.not_le.mpr hlow)

theorem flatMap_escapeByte_high {bs : Bytes} (h : ∀ b ∈ bs, 128 ≤ b) : bs.flatMap escapeByte = bs := by
  induction bs with
  | nil => rfl
  | cons b bs ih =>
    rw [List.flatMap_cons, escapeByte_high (h b List.mem_cons_self), ih fun x hx => h x (List.mem_cons_of_mem b hx)]
    rfl

theorem escapeChar_ascii {c : Char} (hc : c.toNat < 128) :
    (escapeChar c).flatMap String.utf8EncodeChar = (String.utf8EncodeChar c).flatMap escapeByte ∧
      (c.isAlphanum → escapeChar c = [c]) := by
  have hall : ∀ n < 128, (escapeChar (Char.ofNat n)).flatMap String.utf8EncodeChar
      = (String.utf8EncodeChar (Char.ofNat n)).flatMap escapeByte ∧
        ((Char.ofNat n).isAlphanum → escapeChar (Char.ofNat n) = [Char.ofNat n]) := by decide +kernel
  have h := hall c.toNat hc
  rwa [Char.ofNat_toNat] at h

theorem escapeChar_utf8 (c : Char) :
    (escapeChar c).flatMap String.utf8EncodeChar = (String.utf8EncodeChar c).flatMap escapeByte := by
  by_cases hc : c.toNat < 128
  · exact (escapeChar_ascii hc).1
  · rw [flatMap_escapeByte_high (utf8EncodeChar_high (by omega)), escapeChar, if_neg hc, List.flatMap_singleton]

theorem utf8_json (s : String) : utf8 (json s) = literal (utf8 s) := by
  have hchars : ∀ cs : List Char, (cs.flatMap escapeChar).flatMap String.utf8EncodeChar
      = (cs.flatMap String.utf8EncodeChar).flatMap escapeByte := by
    intro cs
    induction cs with
    | nil => rfl
    | cons c cs ih => simp only [List.flatMap_cons, List.flatMap_append, escapeChar_utf8, ih]
  rw [utf8, json, String.toList_ofList, List.flatMap_cons, List.flatMap_append, hchars]
  rfl

theorem head?_of_isPrefix {α : Type} {xs ys : List α} (h : xs <+: ys) (hne : xs ≠ []) : ys.head? = xs.head? := by
  obtain ⟨zs, rfl⟩ := h
  rw [List.head?_append_of_ne_nil _ hne]

/-- No byte's text is the beginning of another's. -/
theorem escapeByte_code {a b : UInt8} (h : escapeByte a <+: escapeByte b) : a = b := by
  have hescaped : ∀ a ∈ escapedBytes, ∀ b ∈ escapedBytes, escapeByte a <+: escapeByte b → a = b := by decide +kernel
  rcases (escapeByte_spec a).2 with ⟨ha, hne, -⟩ | ⟨-, ha, hhead⟩
  · rcases (escapeByte_spec b).2 with ⟨hb, -, -⟩ | ⟨-, hb, hhead⟩
    · rw [ha, hb] at h
      simpa using h
    · rw [ha] at h
      have hsame := head?_of_isPrefix h (by simp)
      rw [hhead, List.head?_cons, Option.some.injEq] at hsame
      exact absurd hsame.symm hne
  · rcases (escapeByte_spec b).2 with ⟨hb, hne, -⟩ | ⟨-, hb, -⟩
    · rw [hb] at h
      have hsame := head?_of_isPrefix h (by rintro hnil; rw [hnil] at hhead; simp at hhead)
      rw [hhead, List.head?_cons, Option.some.injEq] at hsame
      exact absurd hsame hne
    · exact hescaped a ha b hb h

theorem escapeByte_head (b : UInt8) : ∃ c cs, escapeByte b = c :: cs ∧ c ≠ 34 := by
  rcases (escapeByte_spec b).2 with ⟨hb, -, hne⟩ | ⟨-, -, hhead⟩
  · exact ⟨b, [], hb, hne⟩
  · cases he : escapeByte b with
    | nil => simp [he] at hhead
    | cons c cs =>
      rw [he, List.head?_cons, Option.some.injEq] at hhead
      exact ⟨c, cs, rfl, by rw [hhead]; decide⟩

theorem escaped_split {xs ys r r' : Bytes} (h : xs.flatMap escapeByte ++ 34 :: r = ys.flatMap escapeByte ++ 34 :: r') :
    xs = ys ∧ r = r' := by
  induction xs generalizing ys with
  | nil =>
    cases ys with
    | nil => exact ⟨rfl, List.cons.inj h |>.2⟩
    | cons y ys =>
      obtain ⟨c, cs, hc, hne⟩ := escapeByte_head y
      rw [List.flatMap_cons, hc] at h
      exact absurd (List.cons.inj h).1.symm hne
  | cons x xs ih =>
    cases ys with
    | nil =>
      obtain ⟨c, cs, hc, hne⟩ := escapeByte_head x
      rw [List.flatMap_cons, hc] at h
      exact absurd (List.cons.inj h).1 hne
    | cons y ys =>
      rw [List.flatMap_cons, List.flatMap_cons, List.append_assoc, List.append_assoc] at h
      have hxy : x = y := by
        rcases List.prefix_or_prefix_of_prefix (List.prefix_append _ _) (h ▸ List.prefix_append _ _) with hp | hp
        · exact (escapeByte_code hp).symm
        · exact escapeByte_code hp
      subst hxy
      obtain ⟨hxs, hr⟩ := ih (List.append_cancel_left h)
      exact ⟨by rw [hxs], hr⟩

/-- A string's text ends where it ends. -/
theorem json_split {s t : String} {r r' : Bytes} (h : utf8 (json s) ++ r = utf8 (json t) ++ r') : s = t ∧ r = r' := by
  rw [utf8_json, utf8_json, literal, literal, List.cons_append, List.cons_append, List.append_assoc,
    List.append_assoc] at h
  obtain ⟨hs, hr⟩ := escaped_split (List.cons.inj h).2
  exact ⟨utf8Encode_injective hs, hr⟩

theorem json_unbroken (s : String) : newline ∉ utf8 (json s) := by
  rw [utf8_json, literal]
  intro h
  rcases List.mem_cons.mp h with h | h
  · exact absurd h (by decide)
  · rcases List.mem_append.mp h with h | h
    · obtain ⟨b, -, hb⟩ := List.mem_flatMap.mp h
      exact (escapeByte_spec b).1 hb
    · exact absurd (List.mem_singleton.mp h) (by decide)

theorem isAlphanum_lt {c : Char} (h : c.isAlphanum) : c.toNat < 128 := by
  have hz : ('z' : Char).toNat = 122 := rfl
  delta Char.isAlphanum Char.isAlpha Char.isUpper Char.isLower Char.isDigit at h
  simp only [Bool.or_eq_true, Bool.and_eq_true, decide_eq_true_eq, UInt32.le_iff_toNat_le] at h
  have hval : c.toNat = c.val.toNat := rfl
  rcases h with (h | h) | h
  all_goals
    have h2 := h.2
    simp at h2
    omega

theorem json_plain {s : String} (h : ∀ c ∈ s.toList, c.isAlphanum) : json s = "\"" ++ s ++ "\"" := by
  have hchar : ∀ c : Char, c.isAlphanum → escapeChar c = [c] := by
    intro c hc
    exact (escapeChar_ascii (isAlphanum_lt hc)).2 hc
  have hflat : ∀ cs : List Char, (∀ c ∈ cs, c.isAlphanum) → cs.flatMap escapeChar = cs := by
    intro cs hcs
    induction cs with
    | nil => rfl
    | cons c cs ih =>
      rw [List.flatMap_cons, hchar c (hcs c List.mem_cons_self), ih fun x hx => hcs x (List.mem_cons_of_mem c hx)]
      rfl
  apply String.toList_inj.mp
  rw [json, String.toList_ofList, hflat s.toList h]
  simp

end Literals

section Members

/-- The data of the records here: a number, and its digits. -/
def Numeral (text : Bytes) (n : Nat) : Prop := text = utf8 (toString n)

def numbered (name : String) : Bool := name == "len" || name == "data"

/-- A member as an envelope has them: digits, or a string. -/
def Reading (m : String × Bytes) : Prop :=
  (numbered m.1 = true ∧ ∃ n, Numeral m.2 n) ∨ (numbered m.1 = false ∧ ∃ v, m.2 = utf8 (json v))

/-- What comes after a member: a comma or the closing brace. -/
def Ended (r : Bytes) : Prop := ∃ c cs, r = c :: cs ∧ isAsciiDigit c = false

theorem utf8_toString_injective {m n : Nat} (h : utf8 (toString m) = utf8 (toString n)) : m = n := by
  rw [← (utf8_toString m).2.2, ← (utf8_toString n).2.2, h]

theorem digits_split {m n : Nat} {r r' : Bytes} (hr : Ended r) (hr' : Ended r')
    (h : utf8 (toString m) ++ r = utf8 (toString n) ++ r') : m = n ∧ r = r' := by
  have htake : ∀ k : Nat, ∀ r, Ended r → (utf8 (toString k) ++ r).takeWhile isAsciiDigit = utf8 (toString k) := by
    rintro k r ⟨c, cs, rfl, hc⟩
    rw [List.takeWhile_append_of_pos (utf8_toString k).2.1, List.takeWhile_cons_of_neg (by rw [hc]; simp),
      List.append_nil]
  have hsame : utf8 (toString m) = utf8 (toString n) := by
    rw [← htake m r hr, ← htake n r' hr', h]
  rw [hsame] at h
  exact ⟨utf8_toString_injective hsame, List.append_cancel_left h⟩

/-- A member's text ends where it ends. -/
theorem Reading.split {name : String} {t t' r r' : Bytes} (ht : Reading (name, t)) (ht' : Reading (name, t'))
    (hr : Ended r) (hr' : Ended r') (h : t ++ r = t' ++ r') : t = t' ∧ r = r' := by
  unfold Reading at ht ht'
  dsimp only at ht ht'
  rcases ht with ⟨hname, n, hn⟩ | ⟨hname, v, hv⟩
  · rcases ht' with ⟨-, n', hn'⟩ | ⟨hname', -⟩
    · rw [hn, hn'] at h ⊢
      obtain ⟨hdigits, hrest⟩ := digits_split hr hr' h
      exact ⟨by rw [hdigits], hrest⟩
    · exact absurd (hname.symm.trans hname') (by decide)
  · rcases ht' with ⟨hname', -⟩ | ⟨-, v', hv'⟩
    · exact absurd (hname'.symm.trans hname) (by decide)
    · rw [hv, hv'] at h ⊢
      obtain ⟨hvalue, hrest⟩ := json_split h
      exact ⟨by rw [hvalue], hrest⟩

variable {serde : Serde Nat}

/-- Members after the first, as an object writes them. -/
def tail (serde : Serde Nat) (ms : List (String × Bytes)) : Bytes :=
  (ms.flatMap fun m => utf8 "," ++ memberText serde m) ++ utf8 "\x7d"

theorem ended_tail (ms : List (String × Bytes)) : Ended (tail serde ms) := by
  cases ms with
  | nil => exact ⟨125, [], rfl, by decide⟩
  | cons m ms => exact ⟨44, memberText serde m ++ tail serde ms, by rw [tail, List.flatMap_cons]; simp [tail, utf8]; rfl, by decide⟩

theorem member_split (hjson : serde.json = json) {m m' : String × Bytes} {r r' : Bytes} (hm : Reading m)
    (hm' : Reading m') (hr : Ended r) (hr' : Ended r')
    (h : memberText serde m ++ r = memberText serde m' ++ r') : m = m' ∧ r = r' := by
  obtain ⟨name, t⟩ := m
  obtain ⟨name', t'⟩ := m'
  simp only [memberText, hjson, List.append_assoc] at h
  obtain ⟨hname, hrest⟩ := json_split h
  subst hname
  have htexts : t ++ r = t' ++ r' := List.append_cancel_left hrest
  obtain ⟨ht, hend⟩ := hm.split hm' hr hr' htexts
  exact ⟨by rw [ht], hend⟩

theorem tail_cons (m : String × Bytes) (ms : List (String × Bytes)) :
    tail serde (m :: ms) = 44 :: (memberText serde m ++ tail serde ms) := by
  simp only [tail, List.flatMap_cons, List.append_assoc]
  rfl

theorem tail_injective (hjson : serde.json = json) {ms ms' : List (String × Bytes)} (hms : ∀ m ∈ ms, Reading m)
    (hms' : ∀ m ∈ ms', Reading m) (h : tail serde ms = tail serde ms') : ms = ms' := by
  have hclosed : ∀ m (ms : List (String × Bytes)), tail serde (m :: ms) ≠ tail serde [] := by
    intro m ms h
    rw [tail_cons] at h
    exact absurd (List.cons.inj h).1 (by decide)
  induction ms generalizing ms' with
  | nil =>
    cases ms' with
    | nil => rfl
    | cons m' ms' => exact absurd h.symm (hclosed m' ms')
  | cons m ms ih =>
    cases ms' with
    | nil => exact absurd h (hclosed m ms)
    | cons m' ms' =>
      rw [tail_cons, tail_cons] at h
      obtain ⟨hm, hrest⟩ := member_split hjson (hms m List.mem_cons_self) (hms' m' List.mem_cons_self)
        (ended_tail ms) (ended_tail ms') (List.cons.inj h).2
      rw [hm, ih (fun x hx => hms x (List.mem_cons_of_mem m hx)) (fun x hx => hms' x (List.mem_cons_of_mem m' hx)) hrest]

/-- The text of an object has one reading. -/
theorem objectText_injective (hjson : serde.json = json) {ms ms' : List (String × Bytes)} (hne : ms ≠ []) (hne' : ms' ≠ [])
    (hms : ∀ m ∈ ms, Reading m) (hms' : ∀ m ∈ ms', Reading m) (h : objectText serde ms = objectText serde ms') : ms = ms' := by
  have htail : ∀ ns : List (String × Bytes), ns ≠ [] → utf8 "," ++ (objectText serde ns).tail = tail serde ns := by
    intro ns hns
    cases ns with
    | nil => exact absurd rfl hns
    | cons n ns =>
      rw [objectText_cons, tail_cons, tail]
      simp only [List.append_assoc]
      rfl
  apply tail_injective hjson hms hms'
  rw [← htail ms hne, ← htail ms' hne', h]

end Members

section Reader

/-- `b` is the text of an object whose members are `env`'s fields. -/
def Says (serde : Serde Nat) (b : Bytes) (env : Envelope Nat) : Prop :=
  ∃ text members, Numeral text env.data ∧ members.Perm (env.members serde text) ∧ objectText serde members = b

theorem mem_optionalMember {serde : Serde Nat} {name n : String} {value : Option String} {t : Bytes} :
    (n, t) ∈ optionalMember serde name value ↔ n = name ∧ ∃ v, value = some v ∧ t = utf8 (serde.json v) := by
  cases value with
  | none => simp [optionalMember]
  | some v => simp [optionalMember]

theorem members_reading {serde : Serde Nat} (hjson : serde.json = json) {env : Envelope Nat} {text : Bytes}
    (htext : Numeral text env.data) : ∀ m ∈ env.members serde text, Reading m := by
  have hstring : ∀ name v, numbered name = false → Reading (name, utf8 (serde.json v)) := by
    intro name v hname
    exact Or.inr ⟨hname, v, by rw [hjson]⟩
  rintro ⟨n, t⟩ hm
  simp only [Envelope.members, List.mem_append, List.mem_cons, List.not_mem_nil, or_false, mem_optionalMember,
    Prod.mk.injEq] at hm
  rcases hm with ((((((⟨rfl, rfl⟩ | ⟨rfl, rfl⟩ | ⟨rfl, rfl⟩ | ⟨rfl, rfl⟩ | ⟨rfl, rfl⟩) | ⟨rfl, v, -, rfl⟩) |
    ⟨rfl, v, -, rfl⟩) | ⟨rfl, rfl⟩ | ⟨rfl, rfl⟩) | ⟨rfl, v, -, rfl⟩) | ⟨rfl, v, -, rfl⟩) | ⟨rfl, rfl⟩ | ⟨rfl, rfl⟩
  · exact Or.inl ⟨rfl, env.len, rfl⟩
  iterate 10 exact hstring _ _ rfl
  · exact Or.inl ⟨rfl, env.data, htext⟩
  · exact hstring _ _ rfl

theorem members_ne_nil {serde : Serde Nat} {env : Envelope Nat} {text : Bytes} {ms : List (String × Bytes)}
    (h : ms.Perm (env.members serde text)) : ms ≠ [] := by
  rintro rfl
  simp [Envelope.members] at h

theorem json_inj {serde : Serde Nat} (hjson : serde.json = json) {s t : String}
    (h : utf8 (serde.json s) = utf8 (serde.json t)) : s = t := by
  have hends : utf8 (json s) ++ [] = utf8 (json t) ++ [] := by
    rw [← hjson, h]
  exact (json_split hends).1

/-- An envelope's fields say which envelope it is. -/
theorem envelope_eq {serde : Serde Nat} (hjson : serde.json = json) {env env' : Envelope Nat} {text text' : Bytes}
    (htext : Numeral text env.data) (htext' : Numeral text' env'.data)
    (h : ∀ m, m ∈ env.members serde text ↔ m ∈ env'.members serde text') : env = env' := by
  have hfield : ∀ n t, (n, t) ∈ env.members serde text ↔ (n, t) ∈ env'.members serde text' := fun n t => h (n, t)
  simp only [Envelope.members, List.mem_append, List.mem_cons, List.not_mem_nil, or_false, mem_optionalMember,
    Prod.mk.injEq] at hfield
  have hoptional : ∀ u u' : Option String,
      (∀ t, (∃ v, u = some v ∧ t = utf8 (serde.json v)) ↔ ∃ v, u' = some v ∧ t = utf8 (serde.json v)) → u = u' := by
    intro u u' ht
    cases u with
    | none =>
      cases u' with
      | none => rfl
      | some v' =>
        obtain ⟨v, hv, -⟩ := (ht (utf8 (serde.json v'))).mpr ⟨v', rfl, rfl⟩
        simp at hv
    | some v =>
      obtain ⟨v', hv', heq⟩ := (ht (utf8 (serde.json v))).mp ⟨v, rfl, rfl⟩
      rw [hv', json_inj hjson heq]
  have hlen : env.len = env'.len := utf8_toString_injective (by simpa using hfield "len" (utf8 (toString env.len)))
  have hdata : env.data = env'.data := by
    have heq : text = text' := by simpa using hfield "data" text
    rw [Numeral] at htext htext'
    exact utf8_toString_injective (by rw [← htext, ← htext', heq])
  have hspec := json_inj hjson (by simpa using hfield "specversion" (utf8 (serde.json env.specversion)))
  have hid := json_inj hjson (by simpa using hfield "id" (utf8 (serde.json env.id)))
  have hsource := json_inj hjson (by simpa using hfield "source" (utf8 (serde.json env.source)))
  have htype := json_inj hjson (by simpa using hfield "type" (utf8 (serde.json env.type)))
  have hcontent := json_inj hjson (by simpa using hfield "datacontenttype" (utf8 (serde.json env.datacontenttype)))
  have hschema := json_inj hjson (by simpa using hfield "dataschema" (utf8 (serde.json env.dataschema)))
  have hcrc := json_inj hjson (by simpa using hfield "crc32" (utf8 (serde.json env.crc32)))
  have hsubject := hoptional env.subject env'.subject fun t => by simpa using hfield "subject" t
  have htime := hoptional env.time env'.time fun t => by simpa using hfield "time" t
  have hparent := hoptional env.traceparent env'.traceparent fun t => by simpa using hfield "traceparent" t
  have hstate := hoptional env.tracestate env'.tracestate fun t => by simpa using hfield "tracestate" t
  cases env
  cases env'
  simp only at *
  subst_vars
  rfl

/-- The writing half of the codec below. -/
def written : Serde Nat := ⟨json, fun _ => .error "nothing is read"⟩

theorem says_unique {b : Bytes} {env env' : Envelope Nat} (h : Says written b env) (h' : Says written b env') :
    env = env' := by
  obtain ⟨text, ms, htext, hperm, hb⟩ := h
  obtain ⟨text', ms', htext', hperm', hb'⟩ := h'
  have hjson : written.json = json := rfl
  have hms : ms = ms' := objectText_injective hjson (members_ne_nil hperm) (members_ne_nil hperm')
    (fun m hm => members_reading hjson htext m (hperm.mem_iff.mp hm))
    (fun m hm => members_reading hjson htext' m (hperm'.mem_iff.mp hm)) (hb.trans hb'.symm)
  subst hms
  have hmem : ∀ m, m ∈ env.members written text ↔ m ∈ env'.members written text' :=
    fun m => hperm.mem_iff.symm.trans hperm'.mem_iff
  exact envelope_eq hjson htext htext' hmem

open Classical in
/-- JSON as the store writes and reads it, for records that are numbers. -/
noncomputable def serde : Serde Nat where
  json := json
  fromSlice b := if h : ∃ env, Says written b env then .ok h.choose else .error "not an envelope"

theorem serde_roundTrips : serde.RoundTrips Numeral where
  escapes := json_unbroken
  plain _ h := json_plain h
  compact text n h := by
    rw [Numeral] at h
    subst h
    exact fun hm => absurd ((utf8_toString n).2.1 _ hm) (by decide)
  reads env text members htext _ _ hperm := by
    have hsays : Says written (objectText serde members) env := ⟨text, members, htext, hperm, rfl⟩
    have hex : ∃ env, Says written (objectText serde members) env := ⟨env, hsays⟩
    have hread : serde.fromSlice (objectText serde members) = .ok hex.choose := dif_pos hex
    rw [hread, says_unique hex.choose_spec hsays]

def anyFormats : Formats Nat := ⟨∅, true⟩

def sampleWrite : Write Nat where
  attributes := ⟨"01890a5d-ac96-774b-bcce-b302099a8057", "s", "t", some "x", none, "d", none, none⟩
  data := [55]
  value := 7

theorem fixedLen_serde (attributes : Attributes) (data : Bytes) :
    fixedLen serde attributes data = fixedLen written attributes data := by
  have hfield : ∀ name, fieldText serde name = fieldText written name := fun _ => rfl
  simp only [fixedLen, objectRest, optionalText, hfield]

theorem sampleWrite_valid : sampleWrite.Valid serde anyFormats Numeral where
  id := by decide +kernel
  compact := show [55] = utf8 (toString 7) by decide +kernel
  fits := by
    rw [fixedLen_serde]
    decide +kernel
  accepted := by decide +kernel

theorem sampleWrite_round_trip :
    (∃ obj, encodeObject serde sampleWrite.attributes sampleWrite.data = some obj ∧
      verify serde anyFormats obj 0 = .ok ⟨some 0, sampleWrite.attributes, 7, obj⟩) ∧
    scan serde anyFormats (encodeLines serde [sampleWrite, sampleWrite]) 0
      = .ok ⟨linesAt serde 0 [sampleWrite, sampleWrite], 0 + (encodeLines serde [sampleWrite, sampleWrite]).length, none⟩ := by
  obtain ⟨hone, hmany⟩ := @store_object_round_trip Nat serde anyFormats Numeral serde_roundTrips
  obtain ⟨obj, -, hobj, -, -, hverify, -, -⟩ := hone sampleWrite sampleWrite_valid
  refine ⟨⟨obj, hobj, hverify 0⟩, hmany [sampleWrite, sampleWrite] ?_ 0⟩
  intro w hw
  have hw : w = sampleWrite := by simpa using hw
  rw [hw]
  exact sampleWrite_valid

end Reader

end StoreJson

end DistributedMesh
