import Mathlib.Data.List.Basic
import Mathlib.Tactic.Common
import Mathlib.Tactic.Ring

namespace ByteFormats

section Incremental

variable {α R : Type} {more : R → Prop} {P : List α → R}

/-- A reader of a growing buffer: an answer that does not ask for more is its answer to every longer buffer. -/
def Stable (more : R → Prop) (P : List α → R) : Prop := ∀ b c, ¬ more (P b) → P (b ++ c) = P b

theorem Stable.of_isPrefix (h : Stable more P) {p f : List α} (hp : p <+: f) : more (P p) ∨ P p = P f := by
  obtain ⟨c, rfl⟩ := hp
  by_cases hmore : more (P p)
  · exact Or.inl hmore
  · exact Or.inr (h p c hmore).symm

/-- However the bytes are cut, a decision stands. -/
theorem Stable.cuts (h : Stable more P) {pieces : List (List α)} {i j : Nat} (hij : i ≤ j)
    (hdecided : ¬ more (P (pieces.take i).flatten)) : P (pieces.take j).flatten = P (pieces.take i).flatten := by
  have hsplit : pieces.take j = pieces.take i ++ (pieces.drop i).take (j - i) := by
    rw [← List.take_add, Nat.add_sub_cancel' hij]
  rw [hsplit, List.flatten_append]
  exact h _ _ hdecided

end Incremental

section Bytes

theorem forall_byte {P : UInt8 → Prop} [DecidablePred P] (h : ∀ n < 256, P (UInt8.ofNat n)) (b : UInt8) : P b := by
  have hb := h b.toNat b.toNat_lt
  rwa [UInt8.ofNat_toNat] at hb

theorem utf8Encode_injective {s t : String}
    (h : s.toList.flatMap String.utf8EncodeChar = t.toList.flatMap String.utf8EncodeChar) : s = t := by
  have hencode : ∀ u : String, u.toByteArray = (u.toList.flatMap String.utf8EncodeChar).toByteArray := by
    intro u
    rw [← String.utf8Encode_toList]
    rfl
  apply String.toByteArray_inj.mp
  rw [hencode s, hencode t, h]

end Bytes

section Leb128

/-- What reading a number of seven bits a byte found. -/
inductive Reading where
  | complete (value len : Nat)
  | needMore
  | overflow
deriving DecidableEq

/-- At most `left` bytes of seven bits, the lowest first, every byte but the last with its high bit set. -/
def encode : Nat → Nat → List UInt8
  | 0, _ => []
  | left + 1, v =>
    if v / 128 = 0 then [UInt8.ofNat (v % 128)] else UInt8.ofNat (v % 128 + 128) :: encode left (v / 128)

/-- Read on at byte `i`, with `left` bytes to go and a last byte of at most `last`. -/
def readOn (last : Nat) : Nat → Nat → Nat → List UInt8 → Reading
  | 0, _, _, _ => .overflow
  | _ + 1, _, _, [] => .needMore
  | left + 1, i, value, byte :: rest =>
    if left = 0 ∧ last < byte.toNat % 128 then .overflow
    else if byte.toNat < 128 then .complete (value ||| (byte.toNat % 128) <<< (7 * i)) (i + 1)
    else readOn last left (i + 1) (value ||| (byte.toNat % 128) <<< (7 * i)) rest

/-- The number a list of bytes spells, seven bits a byte. -/
def groups : List UInt8 → Nat
  | [] => 0
  | byte :: rest => byte.toNat % 128 + 128 * groups rest

variable {last left i value v len : Nat} {b c rest : List UInt8}

theorem or_shift (hvalue : value < 128 ^ i) (bits : Nat) : value ||| bits <<< (7 * i) = value + bits * 128 ^ i := by
  have hpow : (2 : Nat) ^ (7 * i) = 128 ^ i := by rw [pow_mul]; norm_num
  rw [Nat.shiftLeft_eq, Nat.or_comm, Nat.mul_comm bits, ← Nat.two_pow_add_eq_or_of_lt (by rw [hpow]; exact hvalue), hpow]
  ring

theorem add_lt_pow (hvalue : value < 128 ^ i) {bits : Nat} (hbits : bits < 128) : value + bits * 128 ^ i < 128 ^ (i + 1) := by
  have hle : bits * 128 ^ i ≤ 127 * 128 ^ i := Nat.mul_le_mul_right _ (by omega)
  rw [pow_succ]
  omega

theorem readOn_append (h : readOn last left i value b ≠ .needMore) :
    readOn last left i value (b ++ c) = readOn last left i value b := by
  induction left generalizing i value b with
  | zero => cases b <;> rfl
  | succ left ih =>
    cases b with
    | nil => exact absurd rfl h
    | cons byte rest =>
      simp only [readOn, List.cons_append] at h ⊢
      split
      next => rfl
      next hlast =>
        rw [if_neg hlast] at h
        split
        next => rfl
        next hmore =>
          rw [if_neg hmore] at h
          exact ih h

theorem readOn_complete (hvalue : value < 128 ^ i) (h : readOn last left i value b = .complete v len) :
    ∃ n, len = i + n ∧ 0 < n ∧ n ≤ left ∧ n ≤ b.length ∧ v = value + groups (b.take n) * 128 ^ i ∧
      (last < 128 → v < (last + 1) * 128 ^ (i + left - 1)) := by
  induction left generalizing i value b with
  | zero => cases h
  | succ left ih =>
    cases b with
    | nil => cases h
    | cons byte rest =>
      have hbits : byte.toNat % 128 < 128 := Nat.mod_lt _ (by omega)
      have hnext := add_lt_pow hvalue hbits
      simp only [readOn, or_shift hvalue] at h
      split at h
      next => cases h
      next hlast =>
        split at h
        next =>
          injection h with hv hlen
          refine ⟨1, hlen.symm, by omega, by omega, by simp, ?_, fun hl => ?_⟩
          · rw [← hv]
            simp [groups]
          · rw [← hv]
            rcases Nat.eq_zero_or_pos left with rfl | hpos
            · have hle : byte.toNat % 128 ≤ last := by omega
              have hmul : byte.toNat % 128 * 128 ^ i ≤ last * 128 ^ i := Nat.mul_le_mul_right _ hle
              rw [show i + (0 + 1) - 1 = i from rfl, Nat.add_mul]
              omega
            · have hmono : 128 ^ (i + 1) ≤ 128 ^ (i + (left + 1) - 1) := Nat.pow_le_pow_right (by omega) (by omega)
              have hscale : 128 ^ (i + (left + 1) - 1) ≤ (last + 1) * 128 ^ (i + (left + 1) - 1) :=
                Nat.le_mul_of_pos_left _ (by omega)
              omega
        next =>
          obtain ⟨n, hlen, hpos, hleft, hlength, hv, hbound⟩ := ih hnext h
          refine ⟨n + 1, by omega, by omega, by omega, by simp only [List.length_cons]; omega, ?_, fun hl => ?_⟩
          · rw [hv, List.take_succ_cons, groups, pow_succ]
            ring
          · rw [show i + (left + 1) - 1 = i + 1 + left - 1 by omega]
            exact hbound hl

theorem length_encode_le (left v : Nat) : (encode left v).length ≤ left := by
  induction left generalizing v with
  | zero => rfl
  | succ left ih =>
    simp only [encode]
    split
    next => simp
    next =>
      rw [List.length_cons]
      exact Nat.succ_le_succ (ih _)

theorem length_encode_mono {w : Nat} (h : v ≤ w) : (encode left v).length ≤ (encode left w).length := by
  induction left generalizing v w with
  | zero => exact Nat.le_refl _
  | succ left ih =>
    have hdiv : v / 128 ≤ w / 128 := Nat.div_le_div_right h
    unfold encode
    split
    next =>
      split
      next => simp
      next => simp
    next hmore =>
      rw [if_neg (by omega), List.length_cons, List.length_cons]
      exact Nat.succ_le_succ (ih hdiv)

/-- A number in the range of its bytes reads back, whatever follows. -/
theorem readOn_encode (hlast : last < 128) (hvalue : value < 128 ^ i) (hv : v < (last + 1) * 128 ^ left) :
    readOn last (left + 1) i value (encode (left + 1) v ++ rest) =
      .complete (value + v * 128 ^ i) (i + (encode (left + 1) v).length) := by
  induction left generalizing i value v with
  | zero =>
    have hsmall : v ≤ last := by rw [pow_zero, Nat.mul_one] at hv; omega
    have hmod : v % 128 = v := by omega
    have hbyte : (UInt8.ofNat v).toNat = v := by rw [UInt8.toNat_ofNat']; omega
    have hend : encode 1 v = [UInt8.ofNat v] := by
      rw [encode, if_pos (by omega), hmod]
    rw [hend]
    simp only [List.cons_append, List.nil_append, readOn, hbyte, or_shift hvalue, hmod, List.length_singleton]
    rw [if_neg (by omega), if_pos (by omega)]
  | succ left ih =>
    have hbits : v % 128 < 128 := Nat.mod_lt _ (by omega)
    rw [encode]
    split
    next hzero =>
      have hsmall : v < 128 := by omega
      have hmod : v % 128 = v := by omega
      have hbyte : (UInt8.ofNat v).toNat = v := by rw [UInt8.toNat_ofNat']; omega
      rw [hmod]
      simp only [List.cons_append, List.nil_append, readOn, hbyte, or_shift hvalue, hmod, List.length_singleton]
      rw [if_neg (by omega), if_pos hsmall]
    next hmore =>
      have hbyte : (UInt8.ofNat (v % 128 + 128)).toNat = v % 128 + 128 := by rw [UInt8.toNat_ofNat']; omega
      have hmod : (v % 128 + 128) % 128 = v % 128 := by omega
      have hdiv : v / 128 < (last + 1) * 128 ^ left := by
        rw [Nat.div_lt_iff_lt_mul (by omega), Nat.mul_assoc, ← pow_succ]
        exact hv
      have hrest := @ih (i + 1) (value + v % 128 * 128 ^ i) (v / 128) (add_lt_pow hvalue hbits) hdiv
      have hsum : value + v % 128 * 128 ^ i + v / 128 * 128 ^ (i + 1) = value + v * 128 ^ i := by
        conv_rhs => rw [← Nat.mod_add_div v 128]
        rw [pow_succ]
        ring
      rw [List.cons_append, readOn, hbyte, hmod, or_shift hvalue, if_neg (by omega), if_neg (by omega), hrest, hsum,
        List.length_cons]
      congr 1
      omega

end Leb128

section Wires

variable {α β : Type}

/-- A self-delimiting format: a value whose bytes can be counted in a word reads back, whatever follows. -/
structure Wire (α : Type) where
  enc : α → List UInt8
  take : List UInt8 → Option (α × List UInt8)
  take_enc : ∀ a rest, (enc a).length < 2 ^ 64 → take (enc a ++ rest) = some (a, rest)

namespace Wire

def byte : Wire UInt8 where
  enc b := [b]
  take
    | [] => none
    | b :: rest => some (b, rest)
  take_enc _ _ _ := rfl

/-- A value is written as another, which need not be one of it. -/
def map (w : Wire β) (f : α → β) (g : β → Option α) (h : ∀ a, g (f a) = some a) : Wire α where
  enc a := w.enc (f a)
  take l := (w.take l).bind fun p => (g p.1).map fun a => (a, p.2)
  take_enc a rest hlen := by
    rw [w.take_enc (f a) rest hlen]
    simp [h]

def pair (v : Wire α) (w : Wire β) : Wire (α × β) where
  enc p := v.enc p.1 ++ w.enc p.2
  take l := (v.take l).bind fun p => (w.take p.2).map fun q => ((p.1, q.1), q.2)
  take_enc p rest hlen := by
    rw [List.length_append] at hlen
    rw [List.append_assoc, v.take_enc p.1 _ (by omega), Option.bind_some, w.take_enc p.2 _ (by omega)]
    rfl

def option (w : Wire α) : Wire (Option α) where
  enc
    | none => [0]
    | some a => 1 :: w.enc a
  take
    | [] => none
    | b :: rest => if b = 0 then some (none, rest) else if b = 1 then (w.take rest).map fun p => (some p.1, p.2) else none
  take_enc a rest hlen := by
    cases a with
    | none => rfl
    | some a =>
      have hshort : (w.enc a).length < 2 ^ 64 := by
        rw [List.length_cons] at hlen
        omega
      simp [w.take_enc a rest hshort]

/-- A number below `(last + 1) * 128 ^ left`, in at most `left + 1` bytes. -/
def takeNumber (last left : Nat) (l : List UInt8) : Option (Nat × List UInt8) :=
  match readOn last (left + 1) 0 0 l with
  | .complete v len => some (v, l.drop len)
  | _ => none

theorem takeNumber_encode {last left v : Nat} (hlast : last < 128) (hv : v < (last + 1) * 128 ^ left) (rest : List UInt8) :
    takeNumber last left (encode (left + 1) v ++ rest) = some (v, rest) := by
  have hread := @readOn_encode last left 0 0 v rest hlast (by norm_num) hv
  unfold takeNumber
  rw [hread]
  simp

def u64 : Wire UInt64 where
  enc v := encode 10 v.toNat
  take l := (takeNumber 1 9 l).map fun p => (UInt64.ofNat p.1, p.2)
  take_enc v rest _ := by
    rw [takeNumber_encode (by omega) (by have := v.toNat_lt; omega)]
    simp

def u32 : Wire UInt32 where
  enc v := encode 5 v.toNat
  take l := (takeNumber 15 4 l).map fun p => (UInt32.ofNat p.1, p.2)
  take_enc v rest _ := by
    rw [takeNumber_encode (by omega) (by have := v.toNat_lt; omega)]
    simp

/-- Bytes after their count. -/
def bytes : Wire (List UInt8) where
  enc l := encode 10 l.length ++ l
  take l := (takeNumber 1 9 l).bind fun p => if p.1 ≤ p.2.length then some (p.2.take p.1, p.2.drop p.1) else none
  take_enc l rest hlen := by
    rw [List.length_append] at hlen
    rw [List.append_assoc, takeNumber_encode (by omega) (by omega), Option.bind_some]
    simp

def string : Wire String :=
  bytes.map (fun s => s.toByteArray.data.toList) (fun l => String.fromUTF8? ⟨l.toArray⟩) fun s => by
    have hvalid : (⟨s.toByteArray.data.toList.toArray⟩ : ByteArray).IsValidUTF8 := s.isValidUTF8
    unfold String.fromUTF8?
    rw [dif_pos hvalid]
    rfl

end Wire

end Wires

section Formats

variable {α β : Type}

/-- A format as its two functions, lawful on some of its values. -/
structure Format (α : Type) where
  enc : α → List UInt8
  take : List UInt8 → Option (α × List UInt8)

def Wire.format (w : Wire α) : Format α := ⟨w.enc, w.take⟩

namespace Format

/-- The bytes of `a`, when they can be counted in a word, read as `b`, whatever follows. -/
def ReadsAs (w : Format α) (a b : α) : Prop :=
  ∀ rest, (w.enc a).length < 2 ^ 64 → w.take (w.enc a ++ rest) = some (b, rest)

/-- What reading a value leaves is the end of what it was given. -/
def Consumes (w : Format α) : Prop := ∀ l a rest, w.take l = some (a, rest) → rest <:+ l

/-- The value that is the whole of `l`. -/
def decode (w : Format α) (l : List UInt8) : Option α :=
  match w.take l with
  | some (a, []) => some a
  | _ => none

def number (last left : Nat) : Format Nat where
  enc := encode (left + 1)
  take := Wire.takeNumber last left

/-- Values of `w` that are one of its kind. -/
def only (w : Format α) (ok : α → Bool) : Format α where
  enc := w.enc
  take l := (w.take l).filter fun p => ok p.1

/-- A value is written as another of the same fields. -/
def map (w : Format β) (f : α → β) (g : β → α) : Format α where
  enc a := w.enc (f a)
  take l := (w.take l).map fun p => (g p.1, p.2)

def pair (v : Format α) (w : Format β) : Format (α × β) where
  enc p := v.enc p.1 ++ w.enc p.2
  take l := (v.take l).bind fun p => (w.take p.2).map fun q => ((p.1, q.1), q.2)

def option (w : Format α) : Format (Option α) where
  enc
    | none => [0]
    | some a => 1 :: w.enc a
  take
    | [] => none
    | b :: rest => if b = 0 then some (none, rest) else if b = 1 then (w.take rest).map fun p => (some p.1, p.2) else none

def takeMany (w : Format α) : Nat → List UInt8 → Option (List α × List UInt8)
  | 0, l => some ([], l)
  | n + 1, l => (w.take l).bind fun p => (takeMany w n p.2).map fun q => (p.1 :: q.1, q.2)

/-- Values after their count. -/
def list (w : Format α) : Format (List α) where
  enc l := encode 10 l.length ++ l.flatMap w.enc
  take l := (Wire.takeNumber 1 9 l).bind fun p => takeMany w p.1 p.2

theorem decode_enc {w : Format α} {a b : α} (h : w.ReadsAs a b) (hlen : (w.enc a).length < 2 ^ 64) :
    w.decode (w.enc a) = some b := by
  have hread := h [] hlen
  rw [List.append_nil] at hread
  unfold decode
  rw [hread]

theorem readsAs_format (w : Wire α) (a : α) : w.format.ReadsAs a a := fun rest hlen => w.take_enc a rest hlen

theorem readsAs_number {last left n : Nat} (hlast : last < 128) (hn : n < (last + 1) * 128 ^ left) :
    (number last left).ReadsAs n n := fun rest _ => Wire.takeNumber_encode hlast hn rest

theorem readsAs_only {w : Format α} {ok : α → Bool} {a b : α} (h : w.ReadsAs a b) (hok : ok b = true) :
    (w.only ok).ReadsAs a b := by
  intro rest hlen
  show (w.take (w.enc a ++ rest)).filter _ = _
  rw [h rest hlen, Option.filter_some, if_pos hok]

theorem readsAs_map {w : Format β} {f : α → β} {g : β → α} {a : α} {b : β} (h : w.ReadsAs (f a) b) :
    (w.map f g).ReadsAs a (g b) := by
  intro rest hlen
  show (w.take (w.enc (f a) ++ rest)).map _ = _
  rw [h rest hlen]
  rfl

theorem readsAs_pair {v : Format α} {w : Format β} {a a' : α} {b b' : β} (hv : v.ReadsAs a a') (hw : w.ReadsAs b b') :
    (v.pair w).ReadsAs (a, b) (a', b') := by
  intro rest hlen
  simp only [pair, List.length_append] at hlen ⊢
  rw [List.append_assoc, hv _ (by omega), Option.bind_some, hw _ (by omega)]
  rfl

theorem readsAs_option {w : Format α} {a b : Option α} (h : Option.Rel w.ReadsAs a b) : w.option.ReadsAs a b := by
  intro rest hlen
  cases h with
  | none => rfl
  | some h =>
    simp only [option, List.length_cons] at hlen
    simp [option, h rest (by omega)]

theorem takeMany_flatMap {w : Format α} {as bs : List α} (h : List.Forall₂ w.ReadsAs as bs) (rest : List UInt8)
    (hlen : (as.flatMap w.enc).length < 2 ^ 64) : takeMany w as.length (as.flatMap w.enc ++ rest) = some (bs, rest) := by
  induction h with
  | nil => rfl
  | cons hhead _ ih =>
    rw [List.flatMap_cons, List.length_append] at hlen
    rw [List.flatMap_cons, List.append_assoc, List.length_cons, takeMany, hhead _ (by omega), Option.bind_some,
      ih (by omega)]
    rfl

theorem readsAs_list {w : Format α} {as bs : List α} (h : List.Forall₂ w.ReadsAs as bs) (hcount : as.length < 2 ^ 64) :
    w.list.ReadsAs as bs := by
  intro rest hlen
  simp only [list, List.length_append] at hlen ⊢
  rw [List.append_assoc, Wire.takeNumber_encode (by omega) (by omega), Option.bind_some,
    takeMany_flatMap h rest (by omega)]

theorem consumes_number (last left : Nat) : (number last left).Consumes := by
  intro l n rest h
  simp only [number, Wire.takeNumber] at h
  split at h
  next =>
    cases h
    exact List.drop_suffix _ _
  next => cases h

theorem consumes_bytes : Wire.bytes.format.Consumes := by
  intro l a rest h
  obtain ⟨p, hp, h⟩ := Option.bind_eq_some_iff.mp h
  split at h
  next =>
    cases h
    exact (List.drop_suffix _ _).trans (consumes_number 1 9 l p.1 p.2 hp)
  next => cases h

theorem consumes_string : Wire.string.format.Consumes := by
  intro l a rest h
  obtain ⟨p, hp, h⟩ := Option.bind_eq_some_iff.mp h
  obtain ⟨s, -, h⟩ := Option.map_eq_some_iff.mp h
  cases h
  exact consumes_bytes l p.1 p.2 hp

theorem Consumes.only {w : Format α} (h : w.Consumes) (ok : α → Bool) : (w.only ok).Consumes := by
  intro l a rest htake
  exact h l a rest (Option.filter_eq_some_iff.mp htake).1

theorem Consumes.map {w : Format β} (h : w.Consumes) (f : α → β) (g : β → α) : (w.map f g).Consumes := by
  intro l a rest htake
  obtain ⟨p, hp, htake⟩ := Option.map_eq_some_iff.mp htake
  cases htake
  exact h l p.1 p.2 hp

theorem Consumes.pair {v : Format α} {w : Format β} (hv : v.Consumes) (hw : w.Consumes) : (v.pair w).Consumes := by
  intro l a rest h
  obtain ⟨p, hp, h⟩ := Option.bind_eq_some_iff.mp h
  obtain ⟨q, hq, h⟩ := Option.map_eq_some_iff.mp h
  cases h
  exact (hw p.2 q.1 q.2 hq).trans (hv l p.1 p.2 hp)

theorem Consumes.option {w : Format α} (h : w.Consumes) : w.option.Consumes := by
  intro l a rest htake
  cases l with
  | nil => cases htake
  | cons b l =>
    simp only [Format.option] at htake
    split at htake
    next =>
      cases htake
      exact List.suffix_cons _ _
    next =>
      split at htake
      next =>
        obtain ⟨p, hp, htake⟩ := Option.map_eq_some_iff.mp htake
        cases htake
        exact (h l p.1 p.2 hp).trans (List.suffix_cons _ _)
      next => cases htake

end Format

end Formats

end ByteFormats
