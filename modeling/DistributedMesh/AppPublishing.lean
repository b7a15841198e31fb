import DistributedMesh.AppChannels

namespace DistributedMesh.App

open ByteFormats
open Framing (Bytes)
open Gossip

variable {chrono : Chrono} {a : Attributes} {data bytes full : Bytes} {attributes : List (String × String)} {limit : Nat}

section Ids

/-- An id as every publication has one: lower hexadecimal digits. -/
def Minted (id : String) : Prop := Gossip.CallContext.lowerHex id 32 = true

variable {id : String}

theorem Minted.bounds (h : Minted id) : ∀ c ∈ id.toList, 0x20 ≤ c.toNat ∧ c.toNat ≤ 0x7e ∧ c ≠ '/' := by
  intro c hc
  unfold Minted Gossip.CallContext.lowerHex at h
  rw [Bool.and_eq_true] at h
  have hdigit := List.all_eq_true.mp h.2 c hc
  simp only [Char.isDigit, ge_iff_le, UInt32.le_iff_toNat_le, Char.toNat_val, Char.le_def, Bool.or_eq_true,
    Bool.and_eq_true, decide_eq_true_eq] at hdigit
  have hbounds : 0x30 ≤ c.toNat ∧ c.toNat ≤ 0x66 := by
    simp at hdigit
    omega
  refine ⟨by omega, by omega, ?_⟩
  rintro rfl
  exact absurd hbounds.1 (by decide)

theorem Minted.printable (h : Minted id) : printable id = true := by
  rw [printable_iff]
  intro c hc
  exact ⟨(h.bounds c hc).1, (h.bounds c hc).2.1⟩

theorem Minted.ne_empty (h : Minted id) : id ≠ "" := by
  rintro rfl
  unfold Minted at h
  exact absurd h (by decide)

theorem Minted.slash_not_mem (h : Minted id) : '/' ∉ id.toList := by
  intro hmem
  exact (h.bounds _ hmem).2.2 rfl

theorem Minted.ne_chunk (h : Minted id) (subject : String) (i : Nat) : id ≠ subject ++ "/" ++ toString i := by
  rintro rfl
  apply h.slash_not_mem
  simp

end Ids

section Reading

theorem Attributes.encode_eq_ok_iff : a.encode chrono data = .ok bytes ↔
    ∃ attributes, a.context.attributes chrono a.dataschema = .ok attributes ∧ bytes = message.enc (attributes, data) := by
  unfold Attributes.encode encodeData
  simp only [bind_eq_ok_iff, pure, Except.pure, Except.ok.injEq, @eq_comm _ _ bytes]

/-- The header an event's attributes are read as. -/
def Attributes.header (a : Attributes) (data : Bytes) : Gossip.Header :=
  ⟨a.source, a.id, a.kind, a.subject, a.time, a.sequence.map p, a.dataschema, data⟩

/-- The texts of an application's own that every header has to have. -/
structure Attributes.Readable (a : Attributes) : Prop where
  kind : a.kind ≠ "" ∧ attributeText a.kind = true
  subject : a.subject ≠ "" ∧ attributeText a.subject = true
  dataschema : ∀ schema, a.dataschema = some schema → attributeText schema = true

theorem readHeader_message (h : a.context.attributes chrono a.dataschema = .ok attributes)
    (hlen : (message.enc (attributes, data)).length ≤ limit) (hlimit : limit < 2 ^ 64) :
    readHeader chrono (message.enc (attributes, data)) limit = (headerOf chrono attributes data).mapError .malformed := by
  unfold readHeader
  rw [if_neg (by omega), decode_message (attributes_length h) hlen hlimit]

theorem readHeader_of_readable (h : a.encode chrono data = .ok bytes) (hlen : bytes.length ≤ limit)
    (hlimit : limit < 2 ^ 64) (hsource : a.source.Canonical) (htime : chrono.Keeps a.time)
    (hid : a.id ≠ "" ∧ printable a.id = true) (hreadable : a.Readable) :
    readHeader chrono bytes limit = .ok (a.header data) := by
  obtain ⟨attributes, hattributes, rfl⟩ := Attributes.encode_eq_ok_iff.mp h
  rw [readHeader_message hattributes hlen hlimit]
  have hsequence : ∀ s, a.sequence.map p = some s → attributeText s = true := by
    intro s hs
    obtain ⟨n, -, rfl⟩ := Option.map_eq_some_iff.mp hs
    exact attributeText_of_printable (printable_p n)
  have hdescribes := @describes_attributes chrono a.context a.dataschema attributes data hattributes htime hsource
    ⟨hid.1, attributeText_of_printable hid.2⟩ hreadable.kind hreadable.subject hsequence hreadable.dataschema
  rw [headerOf_eq_ok_iff.mpr hdescribes]
  rfl

/-- A header that is read has texts that can be. -/
theorem readable_of_readHeader {header : Gossip.Header} (h : a.encode chrono data = .ok bytes)
    (hlen : bytes.length ≤ limit) (hlimit : limit < 2 ^ 64) (hread : readHeader chrono bytes limit = .ok header) :
    a.Readable := by
  obtain ⟨attributes, hattributes, rfl⟩ := Attributes.encode_eq_ok_iff.mp h
  rw [readHeader_message hattributes hlen hlimit] at hread
  obtain ⟨time, -, hall⟩ := attributes_eq_ok_iff.mp hattributes
  cases hheader : headerOf chrono attributes data with
  | error e =>
    rw [hheader] at hread
    cases hread
  | ok h =>
    have hd := headerOf_eq_ok_iff.mp hheader
    have hkind : h.kind = a.kind := by
      have hlookup := hd.kind.2
      rw [hall] at hlookup
      simpa [List.lookup_cons, Attributes.context, eq_comm] using hlookup
    have hsubject : h.subject = a.subject := by
      have hlookup := hd.subject.2
      rw [hall] at hlookup
      simpa [List.lookup_cons, Attributes.context, eq_comm] using hlookup
    have htext : ∀ q ∈ attributes, q.1 ≠ "traceparent" → q.1 ≠ "tracestate" → attributeText q.2 = true := hd.texts
    rw [hall] at htext
    refine ⟨⟨hkind ▸ hd.kind.1, ?_⟩, ⟨hsubject ▸ hd.subject.1, ?_⟩, fun schema hschema => ?_⟩
    · exact htext ("type", a.kind) (by simp [Attributes.context]) (by simp) (by simp)
    · exact htext ("subject", a.subject) (by simp [Attributes.context]) (by simp) (by simp)
    · exact htext ("dataschema", schema) (by simp [hschema]) (by simp) (by simp)

end Reading

section Cutting

theorem length_bytes_mono {l m : Bytes} (h : l.length ≤ m.length) : (Wire.bytes.enc l).length ≤ (Wire.bytes.enc m).length := by
  have hcount := @length_encode_mono 10 _ _ h
  show (encode 10 l.length ++ l).length ≤ (encode 10 m.length ++ m).length
  simp only [List.length_append]
  omega

theorem length_text_mono {s t : String} (h : s.utf8ByteSize ≤ t.utf8ByteSize) : (text.enc s).length ≤ (text.enc t).length :=
  @length_bytes_mono s.toByteArray.data.toList t.toByteArray.data.toList h

theorem attributes_chunk {j : Nat} (h : (a.chunk j).context.attributes chrono none = .ok attributes) :
    ∃ rest, attributes = ("specversion", "1.0") :: ("id", a.id ++ "/" ++ toString j) :: rest ∧
      ∀ i, (a.chunk i).context.attributes chrono none =
        .ok (("specversion", "1.0") :: ("id", a.id ++ "/" ++ toString i) :: rest) := by
  obtain ⟨time, hdate, rfl⟩ := attributes_eq_ok_iff.mp h
  exact ⟨_, rfl, fun i => attributes_eq_ok_iff.mpr ⟨time, hdate, rfl⟩⟩

theorem length_chunk_le {rest : List (String × String)} {id : String} {i n width : Nat} {piece : Bytes} (hi : i ≤ 15)
    (hn : n ≤ 16) (hpiece : piece.length ≤ width) :
    (message.enc (("specversion", "1.0") :: ("id", id ++ "/" ++ toString i) :: rest, chunkBody.enc (i, n, piece))).length ≤
      (message.enc (("specversion", "1.0") :: ("id", id ++ "/" ++ toString 15) :: rest,
        chunkBody.enc (15, parts, List.replicate width 0))).length := by
  have hname : (text.enc (id ++ "/" ++ toString i)).length ≤ (text.enc (id ++ "/" ++ toString 15)).length := by
    have hdigits : ∀ i ≤ 15, (toString i).utf8ByteSize ≤ (toString 15).utf8ByteSize := by decide
    apply length_text_mono
    simp only [String.utf8ByteSize_append]
    exact Nat.add_le_add_left (hdigits i hi) _
  have hbody : (chunkBody.enc (i, n, piece)).length ≤ (chunkBody.enc (15, parts, List.replicate width 0)).length := by
    have hplace : (u16.enc i).length ≤ (u16.enc 15).length := length_encode_mono hi
    have hcount : (u16.enc n).length ≤ (u16.enc parts).length := length_encode_mono hn
    have hbytes := @length_bytes_mono piece (List.replicate width 0) (by rwa [List.length_replicate])
    simp only [chunkBody, Format.pair, Wire.format, List.length_append]
    omega
  have hdata := length_bytes_mono hbody
  show ((text.pair text).list.enc _ ++ Wire.bytes.enc _).length ≤ ((text.pair text).list.enc _ ++ Wire.bytes.enc _).length
  simp only [List.length_append, Format.list, Format.pair, List.flatMap_cons, List.length_cons]
  omega

/-- The messages of an event are those of its chunks, each within the bound of one. -/
structure Chunks (chrono : Chrono) (a : Attributes) (full : Bytes) (pieces messages : List Bytes) : Prop where
  whole : pieces.flatten = full
  nonempty : pieces ≠ []
  count : pieces.length ≤ parts
  sent : ∀ m ∈ messages, ∃ i piece, pieces[i]? = some piece ∧
    (a.chunk i).encode chrono (chunkBody.enc (i, pieces.length, piece)) = .ok m
  covered : ∀ i piece, pieces[i]? = some piece →
    ∃ m ∈ messages, (a.chunk i).encode chrono (chunkBody.enc (i, pieces.length, piece)) = .ok m
  bound : ∀ m ∈ messages, m.length ≤ maxFrame

theorem mapM_eq_ok {ε α β : Type} {f : α → Except ε β} {l : List α} {r : List β} (h : l.mapM f = .ok r) :
    (∀ b ∈ r, ∃ x ∈ l, f x = .ok b) ∧ ∀ x ∈ l, ∃ b ∈ r, f x = .ok b := by
  induction l generalizing r with
  | nil =>
    cases h
    simp
  | cons x l ih =>
    rw [List.mapM_cons, bind_eq_ok_iff] at h
    obtain ⟨b, hb, hrest⟩ := h
    obtain ⟨rest, hmap, hr⟩ := bind_eq_ok_iff.mp hrest
    cases hr
    obtain ⟨hsent, hcovered⟩ := ih hmap
    constructor
    · intro y hy
      rcases List.mem_cons.mp hy with rfl | hy
      · exact ⟨x, List.mem_cons_self, hb⟩
      · obtain ⟨z, hz, hzy⟩ := hsent y hy
        exact ⟨z, List.mem_cons_of_mem _ hz, hzy⟩
    · intro y hy
      rcases List.mem_cons.mp hy with rfl | hy
      · exact ⟨b, List.mem_cons_self, hb⟩
      · obtain ⟨z, hz, hyz⟩ := hcovered y hy
        exact ⟨z, List.mem_cons_of_mem _ hz, hyz⟩

theorem mapError_eq_ok_iff {ε δ α : Type} {f : ε → δ} {x : Except ε α} {y : α} : x.mapError f = .ok y ↔ x = .ok y := by
  cases x with
  | error e => simp [Except.mapError]
  | ok z => simp [Except.mapError]

theorem sent_eq_ok_iff {accepts : Bytes → Bool} {x : Except WireError Bytes} {e : ChannelError} {m : Bytes} :
    (x.mapError ChannelError.encode >>= fun m => if accepts m then .ok m else .error e) = .ok m ↔
      x = .ok m ∧ accepts m = true := by
  rw [bind_eq_ok_iff]
  simp only [mapError_eq_ok_iff]
  constructor
  · rintro ⟨b, hb, hm⟩
    split at hm
    next haccepts =>
      cases hm
      exact ⟨hb, haccepts⟩
    next => cases hm
  · rintro ⟨hx, haccepts⟩
    exact ⟨m, hx, if_pos haccepts⟩

theorem chunks_of_mapM {accepts : Bytes → Bool} {sample : List (String × String)} {messages : List Bytes} {lo n : Nat}
    (hsample : (a.chunk 15).context.attributes chrono none = .ok sample)
    (hfits : (message.enc (sample, chunkBody.enc (15, parts, List.replicate lo 0))).length ≤ maxFrame)
    (hpos : 0 < n) (hcount : n ≤ parts) (hcover : full.length ≤ n * lo)
    (h : ((Pieces.cut lo n full).zipIdx.mapM fun (bytes, i) => do
      let m ← ((a.chunk i).encode chrono (chunkBody.enc (i, n, bytes))).mapError ChannelError.encode
      if accepts m then .ok m else .error (.broadcast i n) : Except ChannelError (List Bytes)) = .ok messages) :
    Chunks chrono a full (Pieces.cut lo n full) messages := by
  obtain ⟨hsent, hcovered⟩ := mapM_eq_ok h
  have hlength := Pieces.length_cut lo n full
  have hof : ∀ m ∈ messages, ∃ i piece, (Pieces.cut lo n full)[i]? = some piece ∧
      (a.chunk i).encode chrono (chunkBody.enc (i, (Pieces.cut lo n full).length, piece)) = .ok m := by
    intro m hm
    obtain ⟨⟨piece, i⟩, hmem, hok⟩ := hsent m hm
    refine ⟨i, piece, List.mem_zipIdx_iff_getElem?.mp hmem, ?_⟩
    rw [hlength]
    exact (sent_eq_ok_iff.mp hok).1
  refine ⟨Pieces.flatten_cut hcover, ?_, by rw [hlength]; exact hcount, hof, ?_, ?_⟩
  · intro hnil
    rw [hnil, List.length_nil] at hlength
    omega
  · intro i piece hpiece
    obtain ⟨m, hm, hok⟩ := hcovered (piece, i) (List.mem_zipIdx_iff_getElem?.mpr hpiece)
    refine ⟨m, hm, ?_⟩
    rw [hlength]
    exact (sent_eq_ok_iff.mp hok).1
  · intro m hm
    obtain ⟨i, piece, hpiece, hok⟩ := hof m hm
    obtain ⟨attributes, hattributes, rfl⟩ := Attributes.encode_eq_ok_iff.mp hok
    obtain ⟨rest, rfl, hall⟩ := attributes_chunk hsample
    have hi : i < (Pieces.cut lo n full).length := (List.getElem?_eq_some_iff.mp hpiece).1
    have hwidth := Pieces.length_le_of_mem_cut (List.mem_of_getElem? hpiece)
    have hsame : attributes = ("specversion", "1.0") :: ("id", a.id ++ "/" ++ toString i) :: rest :=
      Except.ok.inj (hattributes.symm.trans (hall i))
    have hparts : parts = 16 := rfl
    rw [hsame, hlength]
    exact (length_chunk_le (by omega) (by omega) hwidth).trans hfits

/-- What is broadcast of an event: itself, or its chunks. -/
theorem broadcastWholeOrChunks_eq_ok {accepts : Bytes → Bool} {messages : List Bytes}
    (h : broadcastWholeOrChunks chrono accepts a full = .ok messages) :
    full.length ≤ maxFrame ∧ messages = [full] ∨
    maxFrame < full.length ∧ full.length ≤ maxFrame * parts ∧ ∃ pieces, Chunks chrono a full pieces messages := by
  unfold broadcastWholeOrChunks at h
  split at h
  next hwhole =>
    split at h
    next =>
      cases h
      exact Or.inl ⟨hwhole, rfl⟩
    next => cases h
  next hlong =>
    obtain ⟨sample, hsample, h⟩ := bind_eq_ok_iff.mp h
    rw [mapError_eq_ok_iff] at hsample
    dsimp only at h
    split at h
    next => cases h
    next hroom =>
      rw [not_or, Nat.not_lt] at hroom
      obtain ⟨hlo, hfull⟩ := hroom
      have hle := @Pieces.widest_le
        (fun mid => (message.enc (sample, chunkBody.enc (15, parts, List.replicate mid 0))).length ≤ maxFrame) 0 maxFrame
        (Nat.zero_le _)
      have hfits := @Pieces.widest_induction
        (fun mid => (message.enc (sample, chunkBody.enc (15, parts, List.replicate mid 0))).length ≤ maxFrame) 0 maxFrame
        (fun lo => lo = 0 ∨ (message.enc (sample, chunkBody.enc (15, parts, List.replicate lo 0))).length ≤ maxFrame)
        (Or.inl rfl) (fun m hm => Or.inr (of_decide_eq_true hm))
      generalize hwidest : Pieces.widest
        (fun mid => (message.enc (sample, chunkBody.enc (15, parts, List.replicate mid 0))).length ≤ maxFrame) 0 maxFrame = lo
        at h hlo hfull hle hfits
      have hbound : lo * parts ≤ maxFrame * parts := Nat.mul_le_mul_right _ hle
      have hpos : 0 < lo := Nat.pos_of_ne_zero hlo
      have hcover : full.length ≤ (full.length + lo - 1) / lo * lo := by
        have hmod := Nat.div_add_mod (full.length + lo - 1) lo
        have hlt := Nat.mod_lt (full.length + lo - 1) hpos
        rw [Nat.mul_comm] at hmod
        omega
      refine Or.inr ⟨by omega, by omega, _, chunks_of_mapM hsample (hfits.resolve_left hlo) ?_ ?_ hcover h⟩
      · exact Nat.div_pos (by omega) hpos
      · rw [Nat.le_iff_lt_add_one, Nat.div_lt_iff_lt_mul hpos, Nat.add_mul, Nat.one_mul, Nat.mul_comm parts]
        omega

theorem readable_chunk {i : Nat} (hid : Minted a.id) : (a.chunk i).Readable :=
  ⟨⟨by simp [Attributes.chunk, chunkType], by show attributeText chunkType = true; decide⟩,
    ⟨hid.ne_empty, attributeText_of_printable hid.printable⟩, fun _ hnone => nomatch hnone⟩

theorem readHeader_chunk {i n : Nat} {piece m : Bytes} (hsource : a.source.Canonical) (htime : chrono.Keeps a.time)
    (hid : Minted a.id) (h : (a.chunk i).encode chrono (chunkBody.enc (i, n, piece)) = .ok m) (hlen : m.length ≤ maxFrame) :
    readHeader chrono m maxFrame = .ok ((a.chunk i).header (chunkBody.enc (i, n, piece))) := by
  have hprintable : printable (a.id ++ "/" ++ toString i) = true := by
    rw [printable_append, printable_append, hid.printable, ← escaped_toString i, printable_escaped]
    decide
  have hne : a.id ++ "/" ++ toString i ≠ "" := by
    rw [String.append_assoc]
    exact append_ne_empty hid.ne_empty
  exact readHeader_of_readable h hlen (by decide) hsource htime ⟨hne, hprintable⟩ (readable_chunk hid)

theorem decode_chunkBody {i n : Nat} {piece m : Bytes} (hi : i < n) (hn : n ≤ parts)
    (h : (a.chunk i).encode chrono (chunkBody.enc (i, n, piece)) = .ok m) (hlen : m.length ≤ maxFrame) :
    chunkBody.decode (chunkBody.enc (i, n, piece)) = some (i, n, piece) := by
  obtain ⟨attributes, -, rfl⟩ := Attributes.encode_eq_ok_iff.mp h
  have hbody := (length_data_le attributes (chunkBody.enc (i, n, piece))).trans hlen
  have hparts : parts = 16 := rfl
  refine Format.decode_enc ?_ (lt_of_le_of_lt hbody (by decide))
  exact Format.readsAs_pair (Format.readsAs_number (by omega) (by omega))
    (Format.readsAs_pair (Format.readsAs_number (by omega) (by omega)) (Format.readsAs_format _ _))

end Cutting

section Publishing

variable {D : Desk} {ch : Channel} {event : Event} {author : Birth} {messages : List Bytes}

theorem publish_eq_ok (hauthor : ch.author = some author) (h : (publish D ch event).2 = .ok messages) :
    ∃ accepts full, (contextOf D ch author event).encode D.chrono event.data = .ok full ∧
      broadcastWholeOrChunks D.chrono accepts (contextOf D ch author event) full = .ok messages := by
  unfold publish at h
  rw [hauthor] at h
  split at h
  next => cases h
  next =>
    obtain ⟨full, hfull, hsent⟩ := bind_eq_ok_iff.mp h
    rw [mapError_eq_ok_iff] at hfull
    split at hsent
    next => cases hsent
    next accepts hsender => exact ⟨accepts, full, hfull, hsent⟩

end Publishing

end DistributedMesh.App
