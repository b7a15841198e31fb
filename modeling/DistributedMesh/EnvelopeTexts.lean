import DistributedMesh.EnvelopeHeaders
import DistributedMesh.StatusHeld

namespace DistributedMesh

open Framing (canonical crockford)

structure Birth.Canonical (b : Birth) : Prop where
  fabric : canonical b.fabric = true
  node : canonical b.node = true
  incarnation : canonical b.incarnation = true

namespace Gossip

variable {s t a b c : String}

section Printing

theorem printable_iff : printable s = true ↔ ∀ c ∈ s.toList, 0x20 ≤ c.toNat ∧ c.toNat ≤ 0x7e := by
  simp [printable]

theorem printable_append : printable (s ++ t) = (printable s && printable t) := by
  simp [printable]

theorem attributeText_of_printable (h : printable s = true) : attributeText s = true := by
  unfold attributeText
  rw [Bool.not_eq_true', List.any_eq_false]
  intro c hc
  have hbounds := printable_iff.mp h c hc
  have hlow : c.toNat &&& 0xffff ≤ c.toNat := Nat.and_le_left
  simp only [forbidden, Bool.or_eq_true, Bool.and_eq_true, decide_eq_true_eq]
  omega

theorem escapedByte_printable (b : UInt8) : ∀ c ∈ escapedByte b, 0x20 ≤ c.toNat ∧ c.toNat ≤ 0x7e := by
  have hall : ((List.range 256).all fun n => (escapedByte (UInt8.ofNat n)).all fun c =>
      Nat.ble 0x20 c.toNat && Nat.ble c.toNat 0x7e) = true := by decide +kernel
  intro c hc
  have hb := List.all_eq_true.mp hall b.toNat (List.mem_range.mpr b.toNat_lt)
  rw [UInt8.ofNat_toNat] at hb
  have hbounds := List.all_eq_true.mp hb c hc
  rw [Bool.and_eq_true, Nat.ble_eq, Nat.ble_eq] at hbounds
  exact hbounds

theorem printable_escaped (s : String) : printable (escaped s) = true := by
  rw [printable_iff, escaped, String.toList_ofList]
  intro c hc
  obtain ⟨b, -, hb⟩ := List.mem_flatMap.mp hc
  exact escapedByte_printable b c hb

theorem printable_p (n : Nat) : printable (p n) = true := by
  rw [printable_iff, p, String.toList_ofList]
  intro c hc
  have hdigit := Decimals.digit_bounds (Decimals.isDigit_padded 20 n c hc)
  omega

theorem printable_path (parts : List String) : printable (path parts) = true := by
  unfold path
  induction parts with
  | nil => rfl
  | cons part parts ih =>
    cases parts with
    | nil =>
      rw [List.map_singleton, String.intercalate_singleton]
      exact printable_escaped part
    | cons next parts =>
      rw [List.map_cons, List.map_cons, String.intercalate_cons_cons, ← List.map_cons, printable_append,
        printable_append, printable_escaped, ih]
      rfl

theorem crockford_bounds {c : Char} (h : crockford.toList.contains c = true) :
    c.isAlphanum = true ∧ 0x20 ≤ c.toNat ∧ c.toNat ≤ 0x7e ∧ c ≠ '/' := by
  have hall : (crockford.toList.all fun c =>
      c.isAlphanum && (Nat.ble 0x20 c.toNat && (Nat.ble c.toNat 0x7e && c != '/'))) = true := by decide +kernel
  have hbounds := List.all_eq_true.mp hall c (List.contains_iff_mem.mp h)
  rwa [Bool.and_eq_true, Bool.and_eq_true, Bool.and_eq_true, Nat.ble_eq, Nat.ble_eq, bne_iff_ne] at hbounds

theorem crockford_of_canonical (h : canonical s = true) : ∀ c ∈ s.toList, crockford.toList.contains c = true := by
  rw [canonical, Bool.and_eq_true] at h
  exact List.all_eq_true.mp h.1

theorem printable_of_canonical (h : canonical s = true) : printable s = true := by
  rw [printable_iff]
  intro c hc
  have hbounds := crockford_bounds (crockford_of_canonical h c hc)
  exact ⟨hbounds.2.1, hbounds.2.2.1⟩

end Printing

section Escaping

theorem escapedByte_alphanum {c : Char} (h : c.isAlphanum = true) :
    (String.utf8EncodeChar c).flatMap escapedByte = [c] := by
  have hall : ∀ n < 128, (Char.ofNat n).isAlphanum = true →
      (String.utf8EncodeChar (Char.ofNat n)).flatMap escapedByte = [Char.ofNat n] := by decide +kernel
  have hlt : c.toNat < 128 := by
    have hletter : (decide ('A'.val ≤ c.val ∧ c.val ≤ 'Z'.val) || decide ('a'.val ≤ c.val) && decide (c.val ≤ 'z'.val) ||
        decide ('0'.val ≤ c.val) && decide (c.val ≤ '9'.val)) = true := h
    simp only [UInt32.le_iff_toNat_le, Bool.or_eq_true, Bool.and_eq_true, decide_eq_true_eq, Char.toNat_val] at hletter
    simp at hletter
    omega
  have hc := hall c.toNat hlt
  rw [Char.ofNat_toNat] at hc
  exact hc h

theorem escaped_alphanum (h : ∀ c ∈ s.toList, c.isAlphanum = true) : escaped s = s := by
  unfold escaped
  rw [List.flatMap_assoc]
  have hself : s.toList.flatMap (fun c => (String.utf8EncodeChar c).flatMap escapedByte) = s.toList := by
    conv_rhs => rw [← List.flatMap_singleton' s.toList]
    exact List.flatMap_congr fun c hc => escapedByte_alphanum (h c hc)
  rw [hself, String.ofList_toList]

theorem escaped_canonical (h : canonical s = true) : escaped s = s :=
  escaped_alphanum fun c hc => (crockford_bounds (crockford_of_canonical h c hc)).1

theorem escaped_toString (n : Nat) : escaped (toString n) = toString n := by
  refine escaped_alphanum fun c hc => ?_
  have hmem : c ∈ Nat.toDigits 10 n := by simpa using hc
  have hdigit : c.isDigit = true := Nat.isDigit_of_mem_toDigits (by decide) (by decide) hmem
  simp [Char.isAlphanum, hdigit]

theorem toString_inj {m n : Nat} (h : toString m = toString n) : m = n := by
  have hlists := congrArg (fun s : String => Decimals.valueOf s.toList) h
  simpa [Decimals.valueOf] using hlists

end Escaping

section Births

variable {birth : Birth}

theorem slash_not_mem_canonical (h : canonical s = true) : '/' ∉ s.toList := by
  intro hmem
  exact (crockford_bounds (crockford_of_canonical h _ hmem)).2.2.2 rfl

theorem split_three (ha : '/' ∉ a.toList) (hb : '/' ∉ b.toList) (hc : '/' ∉ c.toList) :
    split '/' (a ++ "/" ++ b ++ "/" ++ c) = [a, b, c] := by
  have hlist : (a ++ "/" ++ b ++ "/" ++ c).toList = ['/'].intercalate [a.toList, b.toList, c.toList] := by simp
  have hparts : ∀ l ∈ [a.toList, b.toList, c.toList], '/' ∉ l := by simp [ha, hb, hc]
  unfold split
  rw [hlist, List.splitOn_intercalate '/' hparts (by simp)]
  simp

theorem toList_uri (birth : Birth) : birth.uri.toList =
    "rdm://".toList ++ (birth.fabric ++ "/" ++ birth.node ++ "/" ++ birth.incarnation).toList := by
  simp [Birth.uri]

theorem parse_uri (h : birth.Canonical) : Birth.parse birth.uri = .ok birth := by
  have hscheme : "rdm://".toList.isPrefixOf birth.uri.toList = true := by
    rw [toList_uri, List.isPrefixOf_iff_prefix]
    exact List.prefix_append _ _
  have hrest : String.ofList (birth.uri.toList.drop 6) =
      birth.fabric ++ "/" ++ birth.node ++ "/" ++ birth.incarnation := by
    rw [toList_uri, List.drop_left' (by rfl), String.ofList_toList]
  unfold Birth.parse
  rw [if_pos hscheme, hrest, split_three (slash_not_mem_canonical h.fabric) (slash_not_mem_canonical h.node)
    (slash_not_mem_canonical h.incarnation)]
  simp [h.fabric, h.node, h.incarnation]

theorem intercalate_split (sep : Char) (s : String) : (String.singleton sep).intercalate (split sep s) = s := by
  apply String.toList_inj.mp
  rw [String.toList_intercalate, split, List.map_map]
  have hid : String.toList ∘ String.ofList = id := by
    funext l
    exact String.toList_ofList
  rw [hid, List.map_id, String.toList_singleton, List.intercalate_splitOn]

/-- Every source read is the text of the birth it names. -/
theorem uri_of_parse {uri : String} (h : Birth.parse uri = .ok birth) : uri = birth.uri ∧ birth.Canonical := by
  unfold Birth.parse at h
  split at h
  next hscheme =>
    obtain ⟨rest, hrest⟩ := List.isPrefixOf_iff_prefix.mp hscheme
    split at h
    next fabric node incarnation hsplit =>
      have hjoined := intercalate_split '/' (String.ofList (uri.toList.drop 6))
      rw [hsplit, ← hrest, List.drop_left' (by rfl)] at hjoined
      split at h
      next => cases h
      next hfabric =>
        split at h
        next => cases h
        next hnode =>
          split at h
          next => cases h
          next hincarnation =>
            cases h
            refine ⟨?_, by simpa using hfabric, by simpa using hnode, by simpa using hincarnation⟩
            apply String.toList_inj.mp
            rw [toList_uri, ← hrest, ← @String.toList_ofList rest, ← hjoined]
            simp
    next => cases h
  next => cases h

end Births

end Gossip

end DistributedMesh
