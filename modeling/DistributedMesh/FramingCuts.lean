import DistributedMesh.Framing
import Mathlib.Data.List.Infix

namespace DistributedMesh.Framing

open ByteFormats

section Sections

variable {b c buf rest : Bytes} {start max : Nat}

theorem decodeVarint_append (h : decodeVarint b ≠ .needMore) : decodeVarint (b ++ c) = decodeVarint b :=
  readOn_append h

theorem decodeVarint_encodeVarint (v : UInt64) (rest : Bytes) :
    decodeVarint (encodeVarint v ++ rest) = .complete v.toNat (encodeVarint v).length := by
  have hread := @readOn_encode 1 9 0 0 v.toNat rest (by omega) (by norm_num) (by have := v.toNat_lt; omega)
  unfold decodeVarint encodeVarint maxVarintLen
  rw [hread]
  simp

theorem decodeVarint_complete {value len : Nat} (h : decodeVarint b = .complete value len) :
    0 < len ∧ len ≤ maxVarintLen ∧ len ≤ b.length ∧ value < 2 ^ 64 ∧ value = groups (b.take len) := by
  obtain ⟨n, hlen, hpos, hleft, hlength, hvalue, hbound⟩ := readOn_complete (by norm_num) h
  rw [Nat.zero_add] at hlen
  subst hlen
  have hmax := hbound (by omega)
  norm_num [maxVarintLen] at hmax hvalue
  exact ⟨hpos, hleft, hlength, by omega, hvalue⟩

theorem decodeSection_append (h : decodeSection buf start max ≠ .needMore) :
    decodeSection (buf ++ c) start max = decodeSection buf start max := by
  unfold decodeSection at h ⊢
  split at h
  next => exact absurd rfl h
  next hstart =>
    have hdrop : (buf ++ c).drop start = buf.drop start ++ c := List.drop_append_of_le_length (by omega)
    rw [if_neg (by rw [List.length_append]; omega), if_neg hstart, hdrop]
    cases hread : decodeVarint (buf.drop start) with
    | needMore =>
      rw [hread] at h
      exact absurd rfl h
    | overflow => rw [decodeVarint_append (by rw [hread]; exact Reading.noConfusion), hread]
    | complete value len =>
      rw [decodeVarint_append (by rw [hread]; exact Reading.noConfusion), hread]
      rw [hread] at h
      dsimp only at h ⊢
      split
      next => rfl
      next hmax =>
        rw [if_neg hmax] at h
        split at h
        next => exact absurd rfl h
        next hend =>
          rw [if_neg (by rw [List.length_append]; omega), if_neg hend,
            List.drop_append_of_le_length (by omega), List.take_append_of_le_length]
          rw [List.length_drop]
          omega

theorem decodeSection_read {bytes : Bytes} {next : Nat} (h : decodeSection buf start max = .read bytes next) :
    start < next ∧ next ≤ buf.length ∧ bytes.length ≤ max := by
  unfold decodeSection at h
  split at h
  next => cases h
  next =>
    cases hread : decodeVarint (buf.drop start) with
    | needMore => rw [hread] at h; cases h
    | overflow => rw [hread] at h; cases h
    | complete value len =>
      obtain ⟨hpos, -⟩ := decodeVarint_complete hread
      rw [hread] at h
      dsimp only at h
      split at h
      next => cases h
      next =>
        split at h
        next => cases h
        next =>
          injection h with hbytes hnext
          refine ⟨by omega, by omega, ?_⟩
          rw [← hbytes]
          exact (List.length_take_le _ _).trans (by omega)

theorem decodeSection_encoded {before bytes : Bytes} (hmax : bytes.length ≤ max) (hword : bytes.length < 2 ^ 64) :
    decodeSection (before ++ (encodeVarint (UInt64.ofNat bytes.length) ++ (bytes ++ rest))) before.length max =
      .read bytes (before.length + (encodeVarint (UInt64.ofNat bytes.length)).length + bytes.length) := by
  have hvalue : (UInt64.ofNat bytes.length).toNat = bytes.length := UInt64.toNat_ofNat_of_lt' hword
  have hdrop : (before ++ (encodeVarint (UInt64.ofNat bytes.length) ++ (bytes ++ rest))).drop
      (before.length + (encodeVarint (UInt64.ofNat bytes.length)).length) = bytes ++ rest := by
    rw [← List.append_assoc, ← List.length_append, List.drop_left]
  unfold decodeSection
  rw [if_neg (by rw [List.length_append]; omega), List.drop_left, decodeVarint_encodeVarint, hvalue]
  dsimp only
  rw [if_neg (by omega), if_neg (by simp only [List.length_append]; omega), hdrop, List.take_left]

end Sections

/-- More bytes are asked for: nothing is read, or the target and context are and the length is not. -/
def RequestHead.Asks (r : RequestHead) : Prop := r = .needMore ∨ ∃ op header, r = .targeted op header

/-- What follows a target and context that were read names the same. -/
inductive RequestHead.Continues (op : UInt8) (header : RequestHeader) : RequestHead → Prop where
  | targeted : Continues op header (.targeted op header)
  | badLength : Continues op header (.badLength op)
  | tooLarge (declared : Nat) (max : UInt64) : Continues op header (.tooLarge op declared max)
  | ready (payloadLen headLen : Nat) : Continues op header (.ready op header payloadLen headLen)

section Heads

variable {b c : Bytes} {ceiling : UInt8 → Option UInt64} {t : TargetRead}

theorem decodeHeader_stable : Stable (· = .needMore) decodeHeader := by
  intro b c hdecided
  have hsection : decodeSection b 0 maxHeaderBytes ≠ .needMore := by
    intro hmore
    unfold decodeHeader at hdecided
    rw [hmore] at hdecided
    exact hdecided rfl
  unfold decodeHeader
  rw [decodeSection_append hsection]

theorem parseRequestTarget_append (h : parseRequestTarget b ceiling ≠ .error .needMore) :
    parseRequestTarget (b ++ c) ceiling = parseRequestTarget b ceiling := by
  unfold parseRequestTarget at h ⊢
  have hfirst : decodeSection b 0 maxTargetBytes ≠ .needMore := by
    intro hmore
    rw [hmore] at h
    exact h rfl
  rw [decodeSection_append hfirst]
  cases hsection : decodeSection b 0 maxTargetBytes with
  | needMore => exact absurd hsection hfirst
  | bad => rfl
  | read bytes next =>
    rw [hsection] at h
    dsimp only at h ⊢
    cases htarget : targetWire.take bytes with
    | none => rfl
    | some taken =>
      obtain ⟨target, rest⟩ := taken
      rw [htarget] at h
      dsimp only at h ⊢
      cases hceiling : ceiling target.op with
      | none => rfl
      | some max =>
        rw [hceiling] at h
        dsimp only at h ⊢
        rw [decodeSection_append]
        intro hmore
        rw [hmore] at h
        exact h rfl

theorem parseRequestTarget_next (h : parseRequestTarget b ceiling = .ok t) : t.next ≤ b.length := by
  unfold parseRequestTarget at h
  split at h
  next => cases h
  next => cases h
  next =>
    split at h
    next => cases h
    next =>
      split at h
      next => cases h
      next =>
        split at h
        next => cases h
        next => cases h
        next hsection =>
          split at h
          next => cases h
          next =>
            cases h
            exact (decodeSection_read hsection).2.1

theorem parseRequestHead_stable (ceiling : UInt8 → Option UInt64) :
    Stable RequestHead.Asks (fun b => parseRequestHead b ceiling) := by
  intro b c hdecided
  dsimp only at hdecided ⊢
  unfold parseRequestHead at hdecided ⊢
  have htarget : parseRequestTarget b ceiling ≠ .error .needMore := by
    intro hmore
    rw [hmore] at hdecided
    exact hdecided (Or.inl rfl)
  rw [parseRequestTarget_append htarget]
  cases hparse : parseRequestTarget b ceiling with
  | error head => rfl
  | ok t =>
    have hnext := parseRequestTarget_next hparse
    rw [hparse] at hdecided
    dsimp only at hdecided ⊢
    unfold parseRequestLength at hdecided ⊢
    rw [List.drop_append_of_le_length hnext, decodeVarint_append]
    intro hmore
    rw [hmore] at hdecided
    exact hdecided (Or.inr ⟨t.op, t.header, rfl⟩)

theorem parseRequestLength_continues (b : Bytes) (t : TargetRead) : (parseRequestLength b t).Continues t.op t.header := by
  unfold parseRequestLength
  split
  next => exact .targeted
  next => exact .badLength
  next =>
    split
    next => exact .tooLarge _ _
    next => exact .ready _ _

theorem parseRequestHead_targeted {op : UInt8} {header : RequestHeader}
    (h : parseRequestHead b ceiling = .targeted op header) (c : Bytes) :
    (parseRequestHead (b ++ c) ceiling).Continues op header := by
  unfold parseRequestHead at h ⊢
  cases hparse : parseRequestTarget b ceiling with
  | error head =>
    rw [hparse] at h
    dsimp only at h
    subst h
    unfold parseRequestTarget at hparse
    split at hparse
    next => cases hparse
    next => cases hparse
    next =>
      split at hparse
      next => cases hparse
      next =>
        split at hparse
        next => cases hparse
        next =>
          split at hparse
          next => cases hparse
          next => cases hparse
          next => split at hparse <;> cases hparse
  | ok t =>
    have hkept : parseRequestTarget (b ++ c) ceiling = .ok t := by
      rw [parseRequestTarget_append (by rw [hparse]; simp), hparse]
    rw [hparse] at h
    dsimp only at h
    rw [hkept]
    have hsame : t.op = op ∧ t.header = header := by
      have hcontinues := parseRequestLength_continues b t
      rw [h] at hcontinues
      cases hcontinues
      exact ⟨rfl, rfl⟩
    obtain ⟨rfl, rfl⟩ := hsame
    exact parseRequestLength_continues (b ++ c) t

end Heads

section Encoded

variable {ceiling : UInt8 → Option UInt64} {header : RequestHeader} {payload : Bytes}

theorem length_productId (id : ProductId) : (ProductId.wire.enc id).length = 13 := by
  have hcanonical := id.isCanonical
  unfold canonical at hcanonical
  rw [Bool.and_eq_true, beq_iff_eq] at hcanonical
  have hsize : id.value.toByteArray.data.toList.length = 12 := hcanonical.2
  show (encode 10 id.value.toByteArray.data.toList.length ++ id.value.toByteArray.data.toList).length = 13
  rw [List.length_append, hsize]
  rfl

theorem length_birth (b : Birth) : (birthWire.enc b).length = 26 := by
  show (ProductId.wire.enc b.nodeId ++ ProductId.wire.enc b.incarnation).length = 26
  rw [List.length_append, length_productId, length_productId]

/-- The largest header written is of 88 bytes. -/
theorem length_headerWire (h : TransportHeader) : (headerWire.enc h).length ≤ 88 := by
  have hword : ∀ v : UInt64, (Wire.u64.enc v).length ≤ 10 := fun v => length_encode_le 10 v.toNat
  cases h with
  | request s d f =>
    have hlen : (headerWire.enc (.request s d f)).length =
        1 + ((birthWire.enc s).length + ((Wire.u64.enc d).length + (Wire.u64.enc f).length)) := by
      show (Wire.u32.enc 0 ++ (birthWire.enc s ++ (Wire.u64.enc d ++ Wire.u64.enc f))).length = _
      simp only [List.length_append]
      rfl
    have hd := hword d
    have hf := hword f
    rw [hlen, length_birth]
    omega
  | response s d f i n =>
    have hn : (Wire.u32.enc n).length ≤ 5 := length_encode_le 5 n.toNat
    have hlen : (headerWire.enc (.response s d f i n)).length =
        1 + ((birthWire.enc s).length + ((Wire.u64.enc d).length + ((Wire.u64.enc f).length +
          ((birthWire.enc i.sender).length + (Wire.u64.enc i.deliverySeq).length + (Wire.u32.enc n).length)))) := by
      show (Wire.u32.enc 1 ++ (birthWire.enc s ++ (Wire.u64.enc d ++ (Wire.u64.enc f ++
        ((birthWire.enc i.sender ++ Wire.u64.enc i.deliverySeq) ++ Wire.u32.enc n))))).length = _
      simp only [List.length_append]
      rfl
    have hd := hword d
    have hf := hword f
    have hi := hword i.deliverySeq
    rw [hlen, length_birth, length_birth]
    omega
  | ack s d =>
    have hlen : (headerWire.enc (.ack s d)).length = 1 + ((birthWire.enc s).length + (Wire.u64.enc d).length) := by
      show (Wire.u32.enc 2 ++ (birthWire.enc s ++ Wire.u64.enc d)).length = _
      simp only [List.length_append]
      rfl
    have hd := hword d
    rw [hlen, length_birth]
    omega

theorem decodeHeader_encodeHeader (h : TransportHeader) (rest : Bytes) :
    decodeHeader (encodeHeader h ++ rest) = .read h (encodeHeader h).length := by
  have hlen := length_headerWire h
  have hsection := @decodeSection_encoded rest maxHeaderBytes [] (headerWire.enc h) (by unfold maxHeaderBytes; omega) (by omega)
  have htake := headerWire.take_enc h [] (by omega)
  rw [List.append_nil] at htake
  rw [List.nil_append, List.length_nil, Nat.zero_add, ← List.length_append, ← List.append_assoc] at hsection
  unfold decodeHeader encodeHeader
  dsimp only
  rw [hsection]
  dsimp only
  rw [htake]

/-- A request within its bounds: of an op that is served, and of sections and a payload that fit. -/
structure Fits (ceiling : UInt8 → Option UInt64) (header : RequestHeader) (payload : Bytes) : Prop where
  target : (targetWire.enc header.target).length ≤ maxTargetBytes
  context : (contextWire.enc header.context).length ≤ maxContextBytes
  served : ∃ max, ceiling header.target.op = some max ∧ payload.length ≤ max.toNat

/-- The bytes before a request's payload. -/
def encodeHead (header : RequestHeader) (payloadLen : Nat) : Bytes :=
  encodeVarint (UInt64.ofNat (targetWire.enc header.target).length) ++ (targetWire.enc header.target ++
    (encodeVarint (UInt64.ofNat (contextWire.enc header.context).length) ++ (contextWire.enc header.context ++
      encodeVarint (UInt64.ofNat payloadLen))))

theorem encodeRequest_eq (header : RequestHeader) (payload : Bytes) :
    encodeRequest header payload = encodeHead header payload.length ++ payload := by
  simp only [encodeRequest, encodeHead, List.append_assoc]

/-- A request that fits is read as it was written. -/
theorem parseRequestHead_encodeRequest (h : Fits ceiling header payload) :
    parseRequestHead (encodeRequest header payload) ceiling =
      .ready header.target.op header payload.length (encodeHead header payload.length).length := by
  obtain ⟨htarget, hcontext, max, hserved, hpayload⟩ := h
  unfold maxTargetBytes at htarget
  unfold maxContextBytes at hcontext
  have hword := max.toNat_lt
  generalize hT : targetWire.enc header.target = T at htarget
  generalize hC : contextWire.enc header.context = C at hcontext
  have hframe : encodeRequest header payload = [] ++ (encodeVarint (UInt64.ofNat T.length) ++ (T ++
      (encodeVarint (UInt64.ofNat C.length) ++ (C ++ (encodeVarint (UInt64.ofNat payload.length) ++ payload))))) := by
    simp only [encodeRequest, hT, hC, List.append_assoc, List.nil_append]
  have hfirst := @decodeSection_encoded
    (encodeVarint (UInt64.ofNat C.length) ++ (C ++ (encodeVarint (UInt64.ofNat payload.length) ++ payload)))
    maxTargetBytes [] T (by unfold maxTargetBytes; omega) (by omega)
  have hsecond := @decodeSection_encoded (encodeVarint (UInt64.ofNat payload.length) ++ payload) maxContextBytes
    (encodeVarint (UInt64.ofNat T.length) ++ T) C (by unfold maxContextBytes; omega) (by omega)
  have htakeT := targetWire.take_enc header.target [] (by rw [hT]; omega)
  have htakeC := contextWire.take_enc header.context [] (by rw [hC]; omega)
  rw [hT, List.append_nil] at htakeT
  rw [hC, List.append_nil] at htakeC
  rw [List.length_nil, Nat.zero_add, List.nil_append] at hfirst
  rw [List.length_append, List.append_assoc] at hsecond
  have hparse : parseRequestTarget (encodeRequest header payload) ceiling = .ok ⟨header.target.op, header,
      (encodeVarint (UInt64.ofNat T.length)).length + T.length + (encodeVarint (UInt64.ofNat C.length)).length + C.length,
      max⟩ := by
    unfold parseRequestTarget
    rw [hframe, List.nil_append, hfirst]
    dsimp only
    rw [htakeT]
    dsimp only
    rw [hserved]
    dsimp only
    rw [hsecond]
    dsimp only
    rw [htakeC]
  have hdrop : (encodeRequest header payload).drop ((encodeVarint (UInt64.ofNat T.length)).length + T.length +
      (encodeVarint (UInt64.ofNat C.length)).length + C.length) = encodeVarint (UInt64.ofNat payload.length) ++ payload := by
    have hsplit : encodeRequest header payload = (encodeVarint (UInt64.ofNat T.length) ++ T ++
        encodeVarint (UInt64.ofNat C.length) ++ C) ++ (encodeVarint (UInt64.ofNat payload.length) ++ payload) := by
      rw [hframe]
      simp only [List.append_assoc, List.nil_append]
    rw [hsplit, ← List.length_append, ← List.length_append, ← List.length_append, List.drop_left]
  have hvalue : (UInt64.ofNat payload.length).toNat = payload.length := UInt64.toNat_ofNat_of_lt' (show _ < 2 ^ 64 by omega)
  unfold parseRequestHead
  rw [hparse]
  dsimp only
  unfold parseRequestLength
  dsimp only
  rw [hdrop, decodeVarint_encodeVarint, hvalue]
  dsimp only
  rw [if_neg (by omega)]
  unfold encodeHead
  simp only [hT, hC, List.length_append]
  congr 1
  omega

theorem decodeRequest_encodeRequest (h : Fits ceiling header payload) :
    decodeRequest (encodeRequest header payload) ceiling = .ok (header.target.op, header, payload) := by
  unfold decodeRequest
  rw [parseRequestHead_encodeRequest h]
  dsimp only
  rw [if_pos (by rw [encodeRequest_eq, List.length_append]), encodeRequest_eq, List.drop_left]

theorem parseRequestHead_of_isPrefix (h : Fits ceiling header payload) {p : Bytes} (hp : p <+: encodeRequest header payload) :
    parseRequestHead p ceiling = .needMore ∨ parseRequestHead p ceiling = .targeted header.target.op header ∨
      parseRequestHead p ceiling =
        .ready header.target.op header payload.length (encodeHead header payload.length).length := by
  have hwhole := parseRequestHead_encodeRequest h
  rcases (parseRequestHead_stable ceiling).of_isPrefix hp with (hmore | ⟨op, header', htargeted⟩) | hsame
  · exact Or.inl hmore
  · obtain ⟨c, hc⟩ := hp
    have hcontinues := parseRequestHead_targeted htargeted c
    rw [hc, hwhole] at hcontinues
    cases hcontinues
    exact Or.inr (Or.inl htargeted)
  · exact Or.inr (Or.inr (hsame.trans hwhole))

/-- However a request's bytes are cut, its header and head are decided once; a request that fits is asked for until it is
read as it was written; and numbers read back, in at most ten bytes and below 2 ^ 64. -/
theorem requests_read_whole (ceiling : UInt8 → Option UInt64) :
    (∀ (pieces : List Bytes) (i j : Nat), i ≤ j →
      (decodeHeader (pieces.take i).flatten ≠ .needMore →
        decodeHeader (pieces.take j).flatten = decodeHeader (pieces.take i).flatten) ∧
      (¬ (parseRequestHead (pieces.take i).flatten ceiling).Asks →
        parseRequestHead (pieces.take j).flatten ceiling = parseRequestHead (pieces.take i).flatten ceiling)) ∧
    (∀ (buf more : Bytes) (op : UInt8) (header : RequestHeader), parseRequestHead buf ceiling = .targeted op header →
      (parseRequestHead (buf ++ more) ceiling).Continues op header) ∧
    (∀ (h : TransportHeader) (header : RequestHeader) (payload : Bytes), Fits ceiling header payload →
      decodeHeader (encodeRequestFrame h header payload) = .read h (encodeHeader h).length ∧
      (encodeRequestFrame h header payload).drop (encodeHeader h).length = encodeRequest header payload ∧
      parseRequestHead (encodeRequest header payload) ceiling = .ready header.target.op header payload.length
        ((encodeRequest header payload).length - payload.length) ∧
      decodeRequest (encodeRequest header payload) ceiling = .ok (header.target.op, header, payload) ∧
      ∀ p, p <+: encodeRequestFrame h header payload → decodeHeader p = .needMore ∨
        (decodeHeader p = .read h (encodeHeader h).length ∧
          (parseRequestHead (p.drop (encodeHeader h).length) ceiling = .needMore ∨
            parseRequestHead (p.drop (encodeHeader h).length) ceiling = .targeted header.target.op header ∨
            parseRequestHead (p.drop (encodeHeader h).length) ceiling = .ready header.target.op header payload.length
              ((encodeRequest header payload).length - payload.length)))) ∧
    (∀ (v : UInt64) (rest : Bytes), decodeVarint (encodeVarint v ++ rest) = .complete v.toNat (encodeVarint v).length) ∧
    (∀ (b : Bytes) (value len : Nat), decodeVarint b = .complete value len →
      len ≤ maxVarintLen ∧ value < 2 ^ 64 ∧ value = groups (b.take len)) := by
  refine ⟨fun pieces i j hij => ⟨decodeHeader_stable.cuts hij, (parseRequestHead_stable ceiling).cuts hij⟩,
    fun buf more op header htargeted => parseRequestHead_targeted htargeted more, fun h header payload hfits => ?_,
    decodeVarint_encodeVarint, fun b value len hread => ?_⟩
  · have hheader := decodeHeader_encodeHeader h (encodeRequest header payload)
    have hrest : (encodeRequestFrame h header payload).drop (encodeHeader h).length = encodeRequest header payload :=
      List.drop_left
    have hhead : (encodeRequest header payload).length - payload.length = (encodeHead header payload.length).length := by
      rw [encodeRequest_eq, List.length_append]
      omega
    rw [hhead]
    refine ⟨hheader, hrest, parseRequestHead_encodeRequest hfits, decodeRequest_encodeRequest hfits, fun p hp => ?_⟩
    rcases decodeHeader_stable.of_isPrefix hp with hmore | hsame
    · exact Or.inl hmore
    · refine Or.inr ⟨hsame.trans hheader, parseRequestHead_of_isPrefix hfits ?_⟩
      rw [← hrest]
      exact hp.drop (encodeHeader h).length
  · obtain ⟨-, hlen, -, hvalue, hgroups⟩ := decodeVarint_complete hread
    exact ⟨hlen, hvalue, hgroups⟩

end Encoded

def echoRequest : RequestHeader := ⟨⟨"n1", 1⟩, ⟨some "rdm", none, none, none⟩⟩

theorem fits_echo : Fits (fun _ => some 64) echoRequest [104, 105] :=
  ⟨by decide +kernel, by decide +kernel, 64, rfl, by decide⟩

theorem requests_read_whole_echo :
    Fits (fun _ => some 64) echoRequest [104, 105] ∧
      decodeRequest (encodeRequest echoRequest [104, 105]) (fun _ => some 64) = .ok (1, echoRequest, [104, 105]) := by
  have hbirth : Birth := ⟨⟨"000000000001", by decide +kernel⟩, ⟨"000000000002", by decide +kernel⟩⟩
  have hread := (requests_read_whole fun _ => some 64).2.2.1 (.ack hbirth 1) echoRequest [104, 105] fits_echo
  exact ⟨fits_echo, hread.2.2.2.1⟩

/-- A request for a node id of three hundred characters. -/
def longTarget : RequestHeader := ⟨⟨String.ofList (List.replicate 300 'a'), 1⟩, ⟨none, none, none, none⟩⟩

theorem encoded_request_refused :
    parseRequestHead ((encodeRequest longTarget []).take 2) (fun _ => some 64) = .badTarget none ∧
      parseRequestHead (encodeRequest longTarget []) (fun _ => some 64) = .badTarget none := by
  refine ⟨by decide +kernel, by decide +kernel⟩

end DistributedMesh.Framing
