import DistributedMesh.StoreJson
import DistributedMesh.Checksums

namespace DistributedMesh

open Checksums

variable {Value : Type}

/-- The reflected IEEE 802.3 polynomial, its leading power left out. -/
def ieeePoly : BitVec 32 := 0xEDB88320#32

/-- The bits of a byte in the order a reflected checksum reads them, the lowest first. -/
def byteBits (b : UInt8) : List Bool := (List.range 8).map b.toBitVec.getLsbD

/-- The bits of a byte string, byte after byte. -/
def bitsOf (bytes : Bytes) : List Bool := bytes.flatMap byteBits

/-- The remainder of the bits of a byte string divided by the polynomial, bit after bit. -/
def bitwiseCrc32 (bytes : Bytes) : BitVec 32 :=
  feedAll ieeePoly 0xFFFFFFFF#32 (bitsOf bytes) ^^^ 0xFFFFFFFF#32

theorem low_bit_iff (c : UInt32) : c &&& 1 ≠ 0 ↔ c.toBitVec.getLsbD 0 = true := by
  have hand : (c &&& 1).toBitVec = BitVec.setWidth 32 (BitVec.ofBool (c.toBitVec.getLsbD 0)) := by
    rw [UInt32.toBitVec_and]
    exact BitVec.and_one_eq_setWidth_ofBool_getLsbD
  rw [← UInt32.toBitVec_inj.ne, hand]
  cases c.toBitVec.getLsbD 0 <;> decide

theorem crcStep_toBitVec (c : UInt32) :
    (if c &&& 1 ≠ 0 then (0xEDB88320 : UInt32) ^^^ (c >>> 1) else c >>> 1).toBitVec = shift ieeePoly c.toBitVec := by
  unfold shift
  simp only [low_bit_iff]
  split
  · simp [ieeePoly]
  · simp

theorem crcEntry_toBitVec (i : UInt32) : (crcEntry i).toBitVec = (shift ieeePoly)^[8] i.toBitVec := by
  unfold crcEntry
  have hrun : ∀ n (c : UInt32), ((List.range n).foldl
      (fun (c : UInt32) (_ : Nat) => if c &&& 1 ≠ 0 then (0xEDB88320 : UInt32) ^^^ (c >>> 1) else c >>> 1) c).toBitVec
        = (shift ieeePoly)^[n] c.toBitVec := by
    intro n c
    induction n with
    | zero => rfl
    | succ n ih => rw [List.range_succ, List.foldl_append, List.foldl_cons, List.foldl_nil, crcStep_toBitVec, ih,
        Function.iterate_succ_apply']
  exact hrun 8 i

/-- Eight shifts of a register: the table's word for its low byte, and the rest moved down. -/
theorem iterate_shift_eight (c : BitVec 32) :
    (shift ieeePoly)^[8] c = (shift ieeePoly)^[8] (c &&& 0xFF#32) ^^^ (c >>> 8) := by
  have hsplit : c = (c &&& 0xFF#32) ^^^ (c &&& ~~~0xFF#32) := by
    apply BitVec.eq_of_getLsbD_eq
    intro i hi
    rw [BitVec.getLsbD_xor, BitVec.getLsbD_and, BitVec.getLsbD_and, BitVec.getLsbD_not, decide_eq_true hi, Bool.true_and]
    cases c.getLsbD i <;> cases (0xFF#32).getLsbD i <;> rfl
  have hclear : ∀ i < 8, (c &&& ~~~0xFF#32).getLsbD i = false := by
    intro i hi
    have hset : ∀ i < 8, (~~~0xFF#32).getLsbD i = false := by decide
    rw [BitVec.getLsbD_and, hset i hi, Bool.and_false]
  have hdown : (c &&& ~~~0xFF#32) >>> 8 = c >>> 8 := by
    apply BitVec.eq_of_getLsbD_eq
    intro i hi
    have hset : ∀ i < 24, (~~~0xFF#32).getLsbD (8 + i) = true := by decide
    rw [BitVec.getLsbD_ushiftRight, BitVec.getLsbD_ushiftRight, BitVec.getLsbD_and]
    rcases Nat.lt_or_ge i 24 with hlow | hhigh
    · rw [hset i hlow, Bool.and_true]
    · rw [BitVec.getLsbD_of_ge c (8 + i) (by omega), Bool.false_and]
  conv_lhs => rw [hsplit]
  rw [iterate_shift_xor hclear, hdown]

theorem length_byteBits (b : UInt8) : (byteBits b).length = 8 := by
  simp [byteBits]

theorem bitsOf_cons (b : UInt8) (bytes : Bytes) : bitsOf (b :: bytes) = byteBits b ++ bitsOf bytes := rfl

theorem bitsOf_append (xs ys : Bytes) : bitsOf (xs ++ ys) = bitsOf xs ++ bitsOf ys := List.flatMap_append

theorem length_bitsOf (bytes : Bytes) : (bitsOf bytes).length = 8 * bytes.length := by
  induction bytes with
  | nil => rfl
  | cons b bytes ih =>
    rw [bitsOf_cons, List.length_append, length_byteBits, ih, List.length_cons]
    omega

theorem word_byteBits (b : UInt8) : (word (byteBits b) : BitVec 32) = b.toUInt32.toBitVec := by
  apply BitVec.eq_of_getLsbD_eq
  intro i hi
  rw [word_getLsbD, UInt8.toBitVec_toUInt32, BitVec.getLsbD_setWidth, byteBits, List.getElem?_map]
  rcases Nat.lt_or_ge i 8 with hlow | hhigh
  · rw [List.getElem?_range hlow]
    rfl
  · rw [List.getElem?_eq_none (by simpa using hhigh), BitVec.getLsbD_of_ge b.toBitVec i hhigh]
    rfl

/-- A byte through the table is its eight bits through the register. -/
theorem crcByte_toBitVec (c : UInt32) (b : UInt8) :
    (crcEntry ((c ^^^ b.toUInt32) &&& 0xFF) ^^^ (c >>> 8)).toBitVec = feedAll ieeePoly c.toBitVec (byteBits b) := by
  have hbyte : b.toUInt32.toBitVec >>> 8 = 0#32 := by
    rw [UInt8.toBitVec_toUInt32]
    apply BitVec.eq_of_getLsbD_eq
    intro i _
    rw [BitVec.getLsbD_ushiftRight, BitVec.getLsbD_setWidth, BitVec.getLsbD_of_ge b.toBitVec (8 + i) (by omega)]
    simp
  have hlen := length_byteBits b
  rw [feedAll_eq_iterate (by omega), hlen, word_byteBits, iterate_shift_eight, UInt32.toBitVec_xor, crcEntry_toBitVec,
    BitVec.ushiftRight_xor_distrib, hbyte, BitVec.xor_zero]
  simp

theorem crcFold_toBitVec (bytes : Bytes) (c : UInt32) :
    (bytes.foldl (fun c b => crcEntry ((c ^^^ b.toUInt32) &&& 0xFF) ^^^ (c >>> 8)) c).toBitVec
      = feedAll ieeePoly c.toBitVec (bitsOf bytes) := by
  induction bytes generalizing c with
  | nil => rfl
  | cons b bytes ih =>
    rw [List.foldl_cons, ih, crcByte_toBitVec, bitsOf_cons, feedAll_append]

theorem crc32_eq_bitwise (bytes : Bytes) : (crc32 bytes).toBitVec = bitwiseCrc32 bytes := by
  rw [crc32, UInt32.toBitVec_xor, crcFold_toBitVec]
  rfl

theorem byteBits_injective {a b : UInt8} (h : byteBits a = byteBits b) : a = b := by
  have hword := word_byteBits a
  rw [h, word_byteBits] at hword
  exact UInt8.toUInt32_inj.mp (UInt32.toBitVec_inj.mp hword.symm)

theorem bitsOf_injective {xs ys : Bytes} (hlen : xs.length = ys.length) (h : bitsOf xs = bitsOf ys) : xs = ys := by
  induction xs generalizing ys with
  | nil =>
    rw [List.length_nil] at hlen
    exact (List.length_eq_zero_iff.mp hlen.symm).symm
  | cons x xs ih =>
    cases ys with
    | nil => simp at hlen
    | cons y ys =>
      rw [bitsOf_cons, bitsOf_cons] at h
      obtain ⟨hx, hxs⟩ := List.append_inj h (by rw [length_byteBits, length_byteBits])
      rw [byteBits_injective hx, ih (by simpa using hlen) hxs]

/-- Two byte strings of one length that differ inside a window no wider than the checksum sum differently. -/
theorem crc32_ne_of_window {xs ys : Bytes} {start : Nat} (hlen : xs.length = ys.length) (hne : xs ≠ ys)
    (hin : ∀ i, (bitsOf xs)[i]? ≠ (bitsOf ys)[i]? → start ≤ i ∧ i < start + 32) : crc32 xs ≠ crc32 ys := by
  intro h
  have hbits : bitsOf xs ≠ bitsOf ys := fun h => hne (bitsOf_injective hlen h)
  have hlength : (bitsOf xs).length = (bitsOf ys).length := by
    rw [length_bitsOf, length_bitsOf, hlen]
  have hregister := @feedAll_window 32 ieeePoly 0xFFFFFFFF#32 (by decide) _ _ _ hlength hbits hin
  have hcrc : bitwiseCrc32 xs = bitwiseCrc32 ys := by
    rw [← crc32_eq_bitwise, ← crc32_eq_bitwise, h]
  exact hregister (BitVec.xor_left_inj _ |>.mp hcrc)

theorem bitsOf_take (bytes : Bytes) (n : Nat) : bitsOf (bytes.take n) = (bitsOf bytes).take (8 * n) := by
  conv_rhs => rw [← List.take_append_drop n bytes, bitsOf_append]
  rcases Nat.lt_or_ge bytes.length n with hlt | hle
  · rw [List.drop_of_length_le (by omega), List.take_of_length_le (by omega)]
    rw [show bitsOf [] = [] from rfl, List.append_nil, List.take_of_length_le (by rw [length_bitsOf]; omega)]
  · have hlen : (bitsOf (bytes.take n)).length = 8 * n := by
      rw [length_bitsOf, List.length_take, Nat.min_eq_left hle]
    rw [← hlen, List.take_left]

theorem bitsOf_drop (bytes : Bytes) (n : Nat) : bitsOf (bytes.drop n) = (bitsOf bytes).drop (8 * n) := by
  have hwhole : bitsOf (bytes.take n) ++ bitsOf (bytes.drop n) = (bitsOf bytes).take (8 * n) ++ (bitsOf bytes).drop (8 * n) := by
    rw [← bitsOf_append, List.take_append_drop, List.take_append_drop]
  rw [bitsOf_take] at hwhole
  exact List.append_cancel_left hwhole

/-- What an accepted object's checksum field says of the bytes before it. -/
theorem verify_crc {serde : Serde Value} {formats : Formats Value} {obj : Bytes} {offset : Nat} {l : Line Value}
    (h : verify serde formats obj offset = .ok l) :
    parseHex ((obj.drop (obj.length - 10)).take 8) = some (crc32 (obj.take (obj.length - crcSuffix))).toNat := by
  have hcheck : checkCrc obj = .ok () := by
    unfold verify at h
    repeat' split at h
    all_goals first | (simp at h) | assumption
  unfold checkCrc at hcheck
  simp only at hcheck
  split at hcheck
  next => simp at hcheck
  next =>
    split at hcheck
    next => simp at hcheck
    next stated hstated =>
      split at hcheck
      next => simp at hcheck
      next heq => rw [hstated, not_ne_iff.mp heq]

/-- An object that differs from an accepted one in one window of its bits before its checksum field is refused. -/
theorem verify_window {serde : Serde Value} {formats : Formats Value} {obj obj' : Bytes} {offset start : Nat}
    {l : Line Value} (h : verify serde formats obj offset = .ok l) (hlen : obj'.length = obj.length)
    (hne : obj' ≠ obj) (hin : ∀ i, (bitsOf obj')[i]? ≠ (bitsOf obj)[i]? →
      start ≤ i ∧ i < start + 32 ∧ i < 8 * (obj.length - crcSuffix)) (offset' : Nat) :
    ∃ why, verify serde formats obj' offset' = .error why := by
  cases h' : verify serde formats obj' offset' with
  | error why => exact ⟨why, rfl⟩
  | ok l' =>
    exfalso
    set n := obj.length - crcSuffix with hn
    have hafter : obj'.drop n = obj.drop n := by
      apply bitsOf_injective
      · rw [List.length_drop, List.length_drop, hlen]
      · apply List.ext_getElem?
        intro i
        by_contra hi
        rw [bitsOf_drop, bitsOf_drop, List.getElem?_drop, List.getElem?_drop] at hi
        exact absurd (hin _ hi).2.2 (by omega)
    have hbefore : obj'.take n ≠ obj.take n := by
      intro heq
      apply hne
      rw [← List.take_append_drop n obj', ← List.take_append_drop n obj, heq, hafter]
    have hsums : crc32 (obj'.take n) ≠ crc32 (obj.take n) := by
      apply crc32_ne_of_window _ hbefore
      · intro i hi
        rw [bitsOf_take, bitsOf_take, List.getElem?_take, List.getElem?_take] at hi
        split at hi
        · exact ⟨(hin i hi).1, (hin i hi).2.1⟩
        · exact absurd rfl hi
      · rw [List.length_take, List.length_take, hlen]
    -- the two state one checksum, for the bytes that state it are the same
    have hstated : (obj'.drop (obj'.length - 10)).take 8 = (obj.drop (obj.length - 10)).take 8 := by
      have hsuffix : crcSuffix = 20 := rfl
      rw [hlen, show obj.length - 10 = n + (obj.length - 10 - n) by omega, ← List.drop_drop, ← List.drop_drop, hafter]
    have hcrc := verify_crc h'
    rw [hstated, verify_crc h, hlen, ← hn, Option.some.injEq] at hcrc
    exact hsums (UInt32.toNat_inj.mp hcrc.symm)

section Polynomials

open Polynomial

/-- The divisor of IEEE 802.3. -/
noncomputable def ieeePolynomial : (ZMod 2)[X] :=
  X ^ 32 + X ^ 26 + X ^ 23 + X ^ 22 + X ^ 16 + X ^ 12 + X ^ 11 + X ^ 10 + X ^ 8 + X ^ 7 + X ^ 5 + X ^ 4 + X ^ 2 + X + 1

theorem divisor_ieeePoly : divisor ieeePoly = ieeePolynomial := by
  unfold divisor residue ieeePolynomial ieeePoly
  simp [Finset.sum_range_succ, coeffOf]
  ring

/-- The register that `crc32` ends with is the remainder of the bytes' bits, with the initial ones laid over the first. -/
theorem residue_crc32 (bytes : Bytes) :
    residue ((crc32 bytes).toBitVec ^^^ 0xFFFFFFFF#32)
      = (X ^ (8 * bytes.length) * residue 0xFFFFFFFF#32 + X ^ 32 * message (bitsOf bytes)) %ₘ ieeePolynomial := by
  rw [crc32_eq_bitwise, bitwiseCrc32, BitVec.xor_assoc, BitVec.xor_self, BitVec.xor_zero, ← divisor_ieeePoly,
    ← length_bitsOf]
  exact residue_feedAll ieeePoly 0xFFFFFFFF#32 (bitsOf bytes)

/-- The checksum is the division bit by bit, and it tells every burst no longer than itself. -/
theorem crc32_divides_and_tells_bursts :
    (∀ bytes : Bytes, (crc32 bytes).toBitVec = bitwiseCrc32 bytes ∧
      residue ((crc32 bytes).toBitVec ^^^ 0xFFFFFFFF#32)
        = (X ^ (8 * bytes.length) * residue 0xFFFFFFFF#32 + X ^ 32 * message (bitsOf bytes)) %ₘ ieeePolynomial) ∧
    ∀ (serde : Serde Value) (formats : Formats Value) (obj : Bytes) (offset : Nat) (l : Line Value),
      verify serde formats obj offset = .ok l → ∀ (obj' : Bytes) (start : Nat), obj'.length = obj.length → obj' ≠ obj →
        (∀ i, (bitsOf obj')[i]? ≠ (bitsOf obj)[i]? →
          start ≤ i ∧ i < start + 32 ∧ i < 8 * (obj.length - crcSuffix)) →
        ∀ offset', ∃ why, verify serde formats obj' offset' = .error why := by
  constructor
  · exact fun bytes => ⟨crc32_eq_bitwise bytes, residue_crc32 bytes⟩
  · intro serde formats obj offset l h obj' start hlen hne hin offset'
    exact verify_window h hlen hne hin offset'

end Polynomials

section Sample

open StoreJson (serde sampleWrite anyFormats sampleWrite_valid serde_roundTrips)

theorem bits_differ_inside {pre xs ys post : Bytes} (hlen : xs.length = ys.length) {i : Nat}
    (h : (bitsOf (pre ++ xs ++ post))[i]? ≠ (bitsOf (pre ++ ys ++ post))[i]?) :
    8 * pre.length ≤ i ∧ i < 8 * (pre.length + xs.length) := by
  simp only [bitsOf_append] at h
  constructor
  · by_contra hlt
    rw [List.append_assoc, List.append_assoc, List.getElem?_append_left (by rw [length_bitsOf]; omega),
      List.getElem?_append_left (by rw [length_bitsOf]; omega)] at h
    exact h rfl
  · by_contra hge
    rw [List.getElem?_append_right (by simp only [List.length_append, length_bitsOf]; omega),
      List.getElem?_append_right (by simp only [List.length_append, length_bitsOf]; omega)] at h
    simp only [List.length_append, length_bitsOf, hlen] at h
    exact h rfl

theorem objectOf_data {Value : Type} (serde : Serde Value) (attributes : Attributes) (data : Bytes) (len : Nat) :
    ∃ before field, objectOf serde attributes data len = before ++ data ++ field ∧ field.length = crcSuffix :=
  ⟨_, _, rfl, length_crcField (summed serde attributes data len)⟩

/-- One bit of a write's data flipped: its object is accepted, and what it becomes is refused. -/
theorem flipped_refused : ∃ obj obj' : Bytes, (∃ l, verify serde anyFormats obj 0 = .ok l) ∧ obj' ≠ obj ∧
    ∃ why, verify serde anyFormats obj' 0 = .error why := by
  obtain ⟨len, hlen⟩ := objectLen_exists sampleWrite_valid.fits
  have haccepted := verify_objectOf serde_roundTrips sampleWrite_valid hlen 0
  obtain ⟨before, field, hobj, hfield⟩ := objectOf_data serde sampleWrite.attributes sampleWrite.data len
  rw [hobj, show sampleWrite.data = [55] from rfl] at haccepted
  have hne : before ++ [54] ++ field ≠ before ++ [55] ++ field := by simp
  refine ⟨before ++ [55] ++ field, before ++ [54] ++ field, ⟨_, haccepted⟩, hne,
    crc32_divides_and_tells_bursts.2 serde anyFormats _ 0 _ haccepted _ (8 * before.length) (by simp) hne ?_ 0⟩
  intro i hi
  have hlength : ([54] : Bytes).length = ([55] : Bytes).length := rfl
  have hin := bits_differ_inside hlength hi
  have hsize : (before ++ [55] ++ field).length - crcSuffix = before.length + 1 := by
    rw [List.length_append, hfield]
    simp
  rw [hsize]
  simp only [List.length_singleton] at hin
  omega

end Sample

end DistributedMesh
