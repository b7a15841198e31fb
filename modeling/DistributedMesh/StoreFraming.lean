import DistributedMesh.StoreCodec
import Mathlib.Data.List.Infix
import Mathlib.Data.List.TakeWhile
import Mathlib.Order.Basic
import Mathlib.Tactic.IntervalCases

namespace DistributedMesh

variable {Value : Type}

/-- An object as its writers make it: its `len` is its byte count, a byte after the digits ends
them, and it holds no newline. -/
structure Framed (obj : Bytes) : Prop where
  begins : objectHead <+: obj
  stated : decimalValue (lenDigits obj) = obj.length
  closed : objectHead.length + (lenDigits obj).length < obj.length
  unbroken : newline ∉ obj

instance (obj : Bytes) : Decidable (Framed obj) :=
  decidable_of_iff (objectHead <+: obj ∧ decimalValue (lenDigits obj) = obj.length ∧
      objectHead.length + (lenDigits obj).length < obj.length ∧ newline ∉ obj)
    ⟨fun ⟨hb, hs, hc, hu⟩ => ⟨hb, hs, hc, hu⟩, fun h => ⟨h.begins, h.stated, h.closed, h.unbroken⟩⟩

theorem Framed.ne_nil {obj : Bytes} (h : Framed obj) : obj ≠ [] := by
  rintro rfl
  exact Nat.not_lt_zero _ h.closed

/-- A run that ends inside a list is the same run in every extension of the list. -/
theorem takeWhile_of_extends {α : Type} {p : α → Bool} {xs ys : List α} (h : xs <+: ys)
    (hlt : (xs.takeWhile p).length < xs.length) : ys.takeWhile p = xs.takeWhile p := by
  obtain ⟨zs, rfl⟩ := h
  rw [List.takeWhile_append]
  exact if_neg (Nat.ne_of_lt hlt)

theorem lenDigits_of_extends {a b : Bytes} (ha : Framed a) (h : a <+: b) :
    lenDigits b = lenDigits a := by
  refine takeWhile_of_extends (List.IsPrefix.drop h _) ?_
  have hc := ha.closed
  rw [lenDigits] at hc
  simp only [List.length_drop]
  omega

/-- No object is a proper prefix of another: a partial object is never mistaken for a whole one. -/
theorem Framed.eq_of_extends {a b : Bytes} (ha : Framed a) (hb : Framed b) (h : a <+: b) : a = b := by
  apply h.eq_of_length
  rw [← ha.stated, ← hb.stated, lenDigits_of_extends ha h]

theorem parseUsize_value {ds : Bytes} {n : Nat} (h : parseUsize ds = some n) :
    decimalValue ds = n := by
  unfold parseUsize at h
  split at h
  next => simp at h
  next =>
    split at h
    next => exact Option.some.inj h
    next => simp at h

/-- Digits do not run to the end of an object that ends with a brace. -/
theorem digits_closed {obj : Bytes} {n : Nat} (hn : n < obj.length)
    (h : utf8 "\"\x7d" <:+ obj) :
    n + ((obj.drop n).takeWhile isAsciiDigit).length < obj.length := by
  obtain ⟨xs, hx⟩ := h
  have hmem : (125 : UInt8) ∈ obj.drop n := by
    have hlast : (obj.drop n).getLast? = some 125 := by
      rw [List.getLast?_drop, if_neg (by omega), ← hx]
      simp [utf8, String.utf8EncodeChar]
    exact List.mem_of_getLast? hlast
  have hle := (List.takeWhile_prefix (l := obj.drop n) isAsciiDigit).length_le
  have hne : ((obj.drop n).takeWhile isAsciiDigit).length ≠ (obj.drop n).length := by
    intro he
    have hall := (List.takeWhile_prefix (l := obj.drop n) isAsciiDigit).eq_of_length he
    rw [← hall] at hmem
    exact absurd (List.mem_takeWhile_imp hmem) (by decide)
  simp only [List.length_drop] at hle hne
  omega

/-- What `verify` accepts, read between two newlines, is framed. -/
theorem verify_framed {serde : Serde Value} {formats : Formats Value} {obj : Bytes} {offset : Nat}
    {l : Line Value} (h : verify serde formats obj offset = .ok l) (hn : newline ∉ obj) :
    Framed obj := by
  unfold verify at h
  split at h
  next => simp at h
  next hb =>
    split at h
    next => simp at h
    next len hlen =>
      split at h
      next => simp at h
      next hl =>
        split at h
        next => simp at h
        next hc =>
          simp only [not_or, not_not, not_lt] at hc hl hb
          have hpos : 0 < crcSuffix := by decide
          exact ⟨hb, by rw [parseUsize_value hlen, hl], digits_closed (by omega) hc.2.2, hn⟩

theorem utf8EncodeChar_digit {c : Char} (h : c.isDigit) :
    ∃ b, String.utf8EncodeChar c = [b] ∧ isAsciiDigit b ∧ Char.ofUInt8 b = c := by
  have hc : Char.ofNat c.toNat = c := Char.ofNat_toNat c
  have hlo : 48 ≤ c.toNat := by
    simp only [Char.isDigit, Bool.and_eq_true, decide_eq_true_eq] at h
    exact h.1
  have hhi : c.toNat ≤ 57 := by
    simp only [Char.isDigit, Bool.and_eq_true, decide_eq_true_eq] at h
    exact h.2
  rw [← hc]
  generalize c.toNat = k at hlo hhi
  interval_cases k <;> exact ⟨_, rfl, by decide, by decide⟩

theorem utf8_digits {cs : List Char} (h : ∀ c ∈ cs, c.isDigit) :
    ∃ ds : Bytes, cs.flatMap String.utf8EncodeChar = ds ∧ (∀ b ∈ ds, isAsciiDigit b) ∧
      ds.map Char.ofUInt8 = cs ∧ ds.length = cs.length := by
  induction cs with
  | nil => exact ⟨[], rfl, by simp, rfl, rfl⟩
  | cons c cs ih =>
    obtain ⟨b, hb, hd, hc⟩ := utf8EncodeChar_digit (h c (by simp))
    obtain ⟨ds, he, ha, hm, hl⟩ := ih fun c hc => h c (by simp [hc])
    refine ⟨b :: ds, by simp [hb, he], ?_, by simp [hc, hm], by simp [hl]⟩
    intro x hx
    rcases List.mem_cons.mp hx with rfl | hx
    · exact hd
    · exact ha x hx

theorem digits_eq_length (n : Nat) : digits n = (Nat.toDigits 10 n).length := by
  induction n using Nat.strongRecOn with
  | ind n ih =>
    rw [digits]
    split
    next h => rw [Nat.toDigits_of_lt_base h]; rfl
    next h =>
      rw [Nat.toDigits_of_base_le (by omega) (by omega), ih (n / 10) (by omega)]
      simp

/-- The decimal text of a number is as many digits as it has, and reads back as the number. -/
theorem utf8_toString (n : Nat) : (utf8 (toString n)).length = digits n ∧
    (∀ b ∈ utf8 (toString n), isAsciiDigit b) ∧ decimalValue (utf8 (toString n)) = n := by
  have hdig : ∀ c ∈ Nat.toDigits 10 n, c.isDigit :=
    fun c hc => Nat.isDigit_of_mem_toDigits (by omega) (by omega) hc
  obtain ⟨ds, he, ha, hm, hl⟩ := utf8_digits hdig
  have hu : utf8 (toString n) = ds := by
    rw [← he, utf8, Nat.toString_eq_ofList_toDigits, String.toList_ofList]
  rw [hu]
  exact ⟨by rw [hl, digits_eq_length], ha, by rw [decimalValue, hm, Nat.ofDigitChars_ten_toDigits]⟩

theorem toDigits_mem {b n : Nat} {c : Char} (hb : 1 < b) (h : c ∈ Nat.toDigits b n) :
    ∃ d < b, c = Nat.digitChar d := by
  induction n using Nat.strongRecOn with
  | ind n ih =>
    rw [Nat.toDigits_eq_if hb] at h
    split at h
    next hlt => exact ⟨n, hlt, by simpa using h⟩
    next hge =>
      rcases List.mem_append.mp h with h | h
      · exact ih (n / b) (Nat.div_lt_self (by omega) hb) h
      · exact ⟨n % b, Nat.mod_lt _ (by omega), by simpa using h⟩

theorem hexChar_utf8 {c : Char} (h : ∃ d < 16, c = Nat.digitChar d) :
    newline ∉ String.utf8EncodeChar c ∧ (String.utf8EncodeChar c).length = 1 := by
  obtain ⟨d, hd, rfl⟩ := h
  interval_cases d <;> decide

theorem hex8_utf8 (n : UInt32) : newline ∉ utf8 (hex8 n) ∧ (utf8 (hex8 n)).length = 8 := by
  have hlen : (Nat.toDigits 16 n.toNat).length ≤ 8 := by
    rw [Nat.length_toDigits_le_iff (by omega) (by omega)]
    exact n.toNat_lt
  have hchar : ∀ c ∈ List.replicate (8 - (Nat.toDigits 16 n.toNat).length) '0' ++
      Nat.toDigits 16 n.toNat, ∃ d < 16, c = Nat.digitChar d := by
    intro c hc
    rcases List.mem_append.mp hc with hc | hc
    · exact ⟨0, by omega, (List.mem_replicate.mp hc).2⟩
    · exact toDigits_mem (by omega) hc
  have hall : ∀ cs : List Char, (∀ c ∈ cs, ∃ d < 16, c = Nat.digitChar d) →
      newline ∉ cs.flatMap String.utf8EncodeChar ∧
        (cs.flatMap String.utf8EncodeChar).length = cs.length := by
    intro cs hcs
    induction cs with
    | nil => simp
    | cons c cs ih =>
      have hc := hexChar_utf8 (hcs c (by simp))
      have ht := ih fun x hx => hcs x (by simp [hx])
      simp [hc.1, hc.2, ht.1, ht.2, Nat.add_comm]
  have h := hall _ hchar
  rw [utf8, hex8, String.toList_ofList]
  refine ⟨h.1, ?_⟩
  rw [h.2]
  simp
  omega

theorem objectLen_spec {fixed len : Nat} (h : objectLen fixed = some len) :
    fixed + digits len = len := by
  unfold objectLen at h
  have hp := List.find?_some h
  have hm := List.mem_of_find?_eq_some h
  obtain ⟨d, _, hd⟩ := List.mem_map.mp hm
  simp only [beq_iff_eq] at hp
  omega

theorem fieldText_unbroken {serde : Serde Value} (hj : ∀ s, newline ∉ utf8 (serde.json s))
    {name : String} (hn : newline ∉ utf8 s!",\"{name}\":") (value : String) :
    newline ∉ fieldText serde name value := by
  simpa [fieldText] using ⟨hn, hj value⟩

theorem optionalText_unbroken {serde : Serde Value} (hj : ∀ s, newline ∉ utf8 (serde.json s))
    {name : String} (hn : newline ∉ utf8 s!",\"{name}\":") (value : Option String) :
    newline ∉ optionalText serde name value := by
  cases value with
  | none => simp [optionalText]
  | some v => exact fieldText_unbroken hj hn v

theorem objectRest_unbroken {serde : Serde Value} (hj : ∀ s, newline ∉ utf8 (serde.json s))
    (attributes : Attributes) : newline ∉ objectRest serde attributes := by
  simp only [objectRest, List.mem_append, not_or]
  refine ⟨⟨⟨⟨⟨⟨⟨⟨⟨⟨?_, ?_⟩, ?_⟩, ?_⟩, ?_⟩, ?_⟩, ?_⟩, ?_⟩, ?_⟩, ?_⟩, by decide⟩ <;>
    first
    | exact fieldText_unbroken hj (by decide) _
    | exact optionalText_unbroken hj (by decide) _

theorem objectRest_head (serde : Serde Value) (attributes : Attributes) :
    ∃ rest, objectRest serde attributes = 44 :: rest := by
  have h : fieldText serde "specversion" specVersion =
      44 :: (utf8 "\"specversion\":" ++ utf8 (serde.json specVersion)) := rfl
  simp only [objectRest, h, List.cons_append]
  exact ⟨_, rfl⟩

/-- What `encode_object` returns is framed, given that JSON text holds no newline byte. -/
theorem encodeObject_framed {serde : Serde Value} (hj : ∀ s, newline ∉ utf8 (serde.json s))
    {attributes : Attributes} {data obj : Bytes} (hd : newline ∉ data)
    (h : encodeObject serde attributes data = some obj) : Framed obj := by
  obtain ⟨len, hl, h⟩ := Option.bind_eq_some_iff.mp h
  cases Option.some.inj h
  obtain ⟨hlen, hdig, hval⟩ := utf8_toString len
  obtain ⟨rest, hr⟩ := objectRest_head serde attributes
  have hspec := objectLen_spec hl
  have hhex := hex8_utf8 (crc32 (objectHead ++ utf8 (toString len) ++ objectRest serde attributes ++ data))
  generalize utf8 (hex8 _) = hex at hhex ⊢
  have hdl : lenDigits (objectHead ++ utf8 (toString len) ++ objectRest serde attributes ++ data ++
      (utf8 ",\"crc32\":\"" ++ hex ++ utf8 "\"\x7d")) = utf8 (toString len) := by
    simp only [lenDigits, List.append_assoc, List.drop_left, hr, List.cons_append]
    rw [List.takeWhile_append_of_pos hdig, List.takeWhile_cons_of_neg (by decide), List.append_nil]
  have hsuffix : (utf8 ",\"crc32\":\"" ++ hex ++ utf8 "\"\x7d").length = 20 := by
    have h1 : (utf8 ",\"crc32\":\"").length = 10 := by decide
    have h2 : (utf8 "\"\x7d").length = 2 := by decide
    simp only [List.length_append, h1, h2, hhex.2]
  have hdigits : newline ∉ utf8 (toString len) := fun hm => absurd (hdig _ hm) (by decide)
  refine ⟨?_, ?_, ?_, ?_⟩
  · simp only [List.append_assoc]
    exact List.prefix_append _ _
  · rw [hdl, hval, List.length_append, hsuffix]
    simp only [List.length_append, hlen, crcSuffix] at hspec ⊢
    omega
  · rw [hdl, List.length_append, hsuffix]
    simp only [List.length_append]
    omega
  · simp only [List.mem_append, not_or]
    exact ⟨⟨⟨⟨by decide, hdigits⟩, objectRest_unbroken hj attributes⟩, hd⟩,
      ⟨by decide, hhex.1⟩, by decide⟩

end DistributedMesh
