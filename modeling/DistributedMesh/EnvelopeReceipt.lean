import DistributedMesh.EnvelopeHeaders
import Mathlib.Tactic.IntervalCases

namespace DistributedMesh.Gossip

open ByteFormats
open Framing (Bytes CallContext)

variable {E : Env} {D : Postcard} {trace : CallContext} {h : Header} {index : Nat} {data bytes : Bytes}

theorem enc_tag {n : Nat} (h : n < 128) : u32.enc n = [UInt8.ofNat n] := by
  show ByteFormats.encode 5 n = _
  rw [ByteFormats.encode, if_pos (by omega), Nat.mod_eq_of_lt h]

theorem Frame.kindIndex_lt (f : Frame) : f.kindIndex < 19 := by
  cases f <;> simp [Frame.kindIndex]

theorem enc_frame (D : Postcard) (f : Frame) : D.frame.enc f = UInt8.ofNat f.kindIndex :: D.fields f := by
  have hlt := f.kindIndex_lt
  show u32.enc f.kindIndex ++ _ = _
  rw [enc_tag (by omega), List.singleton_append]

theorem kindIndexOf_eq (D : Postcard) (f : Frame) : kindIndexOf D f = .ok f.kindIndex := by
  have hlt := f.kindIndex_lt
  have hbyte : (UInt8.ofNat f.kindIndex).toNat = f.kindIndex := by
    rw [UInt8.toNat_ofNat']
    omega
  unfold kindIndexOf
  rw [enc_frame]
  simp only [hbyte]

theorem authoredIn_eq (E : Env) (f : Frame) (author : Birth) (r now : Nat) :
    Context.authoredIn E f author r now =
      .ok (Context.authored f author r now (keptTrace E.traceState E.current.parent E.current.state)) := by
  obtain ⟨dropped, hsanitized⟩ := @sanitizedTrace_eq E.traceState E.current.parent E.current.state
  have hlt : f.kindIndex < types.length := f.kindIndex_lt
  unfold Context.authoredIn
  rw [kindIndexOf_eq, hsanitized]
  simp [bind, Except.bind, pure, Except.pure, List.getElem?_eq_getElem hlt, Trace.call]

theorem consumes_minted : minted.Consumes := Format.consumes_string.only _

theorem consumes_u64 : u64.Consumes := Format.consumes_number 1 9

theorem consumes_fullHead : fullHead.Consumes :=
  Format.consumes_string.pair (((consumes_minted.pair consumes_minted).map _ _).pair
    (Format.consumes_string.option.pair (consumes_u64.pair consumes_u64)))

/-- The fields before a publication are some of the data, so that cutting them off does not stop. -/
theorem takePublication_returns (data : Bytes) : ∃ taken, takePublication data = .ok taken := by
  unfold takePublication
  split
  next => exact ⟨_, rfl⟩
  next head cursor hhead =>
    have hsuffix := (consumes_fullHead data head cursor hhead).length_le
    rw [if_neg (by omega)]
    dsimp only
    split
    next => exact ⟨_, rfl⟩
    next => exact ⟨_, if_neg (by omega)⟩

/-- It returns, and not with a reserved type. -/
def Answers {β : Type} (x : Except Panic (Except DecodeError β)) : Prop :=
  ∃ r, x = .ok r ∧ ∀ kind position, r ≠ .error (.reserved kind position)

theorem answers_orRefuse {α β : Type} {r : Except WireError α} {next : α → Except Panic (Except DecodeError β)}
    (h : ∀ a, Answers (next a)) : Answers (orRefuse r next) := by
  cases r with
  | error e => exact ⟨_, rfl, by simp⟩
  | ok a => exact h a

theorem publicationOf_returns (index : Nat) (data : Bytes) : ∃ taken, publicationOf index data = .ok taken := by
  unfold publicationOf
  split
  next => exact takePublication_returns data
  next => exact ⟨_, rfl⟩

theorem decodeData_answers (E : Env) (trace : CallContext) (h : Header) (index : Nat) :
    Answers (decodeData E trace h index) := by
  unfold decodeData
  obtain ⟨taken, htaken⟩ := publicationOf_returns index h.data
  rw [htaken]
  refine answers_orRefuse fun _ => answers_orRefuse fun p => answers_orRefuse fun f => answers_orRefuse fun _ => ?_
  unfold agree
  rw [authoredIn_eq]
  show Answers (if _ then _ else _)
  split
  next => exact ⟨_, rfl, by simp⟩
  next => exact ⟨_, rfl, by simp⟩

theorem decodeHeader_eq {limit : Nat} {pairs : List (String × String)} (hlen : bytes.length ≤ limit)
    (hdecode : message.decode bytes = some (pairs, data)) : ∃ dropped, decodeHeader E bytes limit =
      .ok ((keptTrace E.traceState (pairs.lookup "traceparent") (pairs.lookup "tracestate")).call, dropped,
        (headerOf E.chrono pairs data).mapError .malformed) := by
  obtain ⟨dropped, hsanitized⟩ :=
    @sanitizedTrace_eq E.traceState (pairs.lookup "traceparent") (pairs.lookup "tracestate")
  refine ⟨dropped, ?_⟩
  unfold decodeHeader
  rw [if_neg (by omega), hdecode]
  simp only [hsanitized]
  rfl

/-- A message's header, whatever its trace. -/
def readHeader (chrono : Chrono) (bytes : Bytes) (limit : Nat) : Except DecodeError Header :=
  if limit < bytes.length then .error (.malformed (.invalid "complete message exceeds MAX_FRAME"))
  else
    match message.decode bytes with
    | none => .error (.malformed .postcard)
    | some (pairs, data) => (headerOf chrono pairs data).mapError .malformed

/-- Decoding a header returns, and with the same header whatever the trace says. -/
theorem decodeHeader_header (E : Env) (bytes : Bytes) (limit : Nat) :
    ∃ trace dropped, decodeHeader E bytes limit = .ok (trace, dropped, readHeader E.chrono bytes limit) := by
  unfold readHeader
  split
  next hlong =>
    unfold decodeHeader
    rw [if_pos hlong]
    exact ⟨_, _, rfl⟩
  next hshort =>
    split
    next hnone =>
      unfold decodeHeader
      rw [if_neg hshort, hnone]
      exact ⟨_, _, rfl⟩
    next pairs data hdecode =>
      obtain ⟨dropped, hheader⟩ := @decodeHeader_eq E data bytes limit pairs (by omega) hdecode
      exact ⟨_, dropped, hheader⟩

theorem outcomeOf_returns_iff {fabric : String} {frame : Except DecodeError Carried} :
    (∃ outcome, outcomeOf fabric frame = .ok outcome) ↔
      ∀ kind position, frame = .error (.reserved kind position) → ∃ name, reservedName position = .ok name := by
  match frame with
  | .ok f => exact ⟨fun _ => by simp, fun _ => ⟨_, rfl⟩⟩
  | .error (.unknown kind) => exact ⟨fun _ => by simp, fun _ => ⟨_, rfl⟩⟩
  | .error (.malformed e) => exact ⟨fun _ => by simp, fun _ => ⟨_, rfl⟩⟩
  | .error (.reserved kind position) =>
    simp only [outcomeOf, Except.error.injEq, DecodeError.reserved.injEq, and_imp]
    cases hname : reservedName position with
    | error site => simp [Except.map, hname]
    | ok name => simp [Except.map, hname]

theorem receive_returns_of_decode {fabric : String} {received : Received}
    (hdecode : decodeReceived E bytes = .ok received) : (∃ receipt, receive E fabric bytes = .ok receipt) ↔
      ∀ kind position, received.frame = .error (.reserved kind position) → ∃ name, reservedName position = .ok name := by
  rw [← @outcomeOf_returns_iff fabric]
  unfold receive
  rw [hdecode]
  cases houtcome : outcomeOf fabric received.frame with
  | error site => simp [bind, Except.bind, houtcome]
  | ok outcome => simp [bind, Except.bind, pure, Except.pure, houtcome]

/-- The types refused by position, at the positions without a name. -/
def unnamedTypes : List String :=
  ["rdm.fabric.state.committing", "rdm.fabric.state.committed", "rdm.fabric.traffic.opening", "rdm.fabric.traffic.opened"]

/-- A message of valid context that announces one of the unnamed types, with no sequence. -/
def AnnouncesUnnamed (chrono : Chrono) (content : Bytes) : Prop :=
  content.length ≤ maxFrame ∧ ∃ pairs data kind, message.decode content = some (pairs, data) ∧
    (∃ h, Describes chrono pairs data h) ∧ pairs.lookup "type" = some kind ∧ kind ∈ unnamedTypes ∧
    pairs.lookup "sequence" = none

theorem idxOf?_types {kind : String} (h : types.idxOf? kind = some index) : index < 19 ∧ types[index]? = some kind := by
  obtain ⟨hlt, hget, -⟩ := List.idxOf?_eq_some_iff.mp h
  exact ⟨hlt, by rw [List.getElem?_eq_getElem hlt, hget]⟩

theorem mem_unnamedTypes_iff {kind : String} (h : types.idxOf? kind = some index) :
    kind ∈ unnamedTypes ↔ isReserved index = true ∧ ¬ ∃ name, reservedName (index + 2) = .ok name := by
  obtain ⟨hlt, hget⟩ := idxOf?_types h
  interval_cases index
  all_goals
    cases hget
    simp [unnamedTypes, isReserved, reservedName]

/-- A reserved position without a name is what a header of an unnamed type and no sequence comes to. -/
theorem decodeEvent_returns (E : Env) (trace : CallContext) (h : Header) : ∃ r, decodeEvent E trace h = .ok r ∧
    ((∀ kind position, r = .error (.reserved kind position) → ∃ name, reservedName position = .ok name) ↔
      ¬ (h.kind ∈ unnamedTypes ∧ h.sequence = none)) := by
  unfold decodeEvent
  cases hindex : types.idxOf? h.kind with
  | none =>
    have hother : h.kind ∉ unnamedTypes := by
      intro hmem
      have hcatalog : h.kind ∈ types := (by decide : unnamedTypes ⊆ types) hmem
      exact absurd hcatalog (List.idxOf?_eq_none_iff.mp hindex)
    exact ⟨_, rfl, by simp [hother]⟩
  | some index =>
    have hunnamed := mem_unnamedTypes_iff hindex
    dsimp only
    cases hreserved : isReserved index with
    | false =>
      obtain ⟨r, hr, hnot⟩ := decodeData_answers E trace h index
      rw [hreserved] at hunnamed
      refine ⟨r, hr, ?_⟩
      have hother : h.kind ∉ unnamedTypes := by simp [hunnamed]
      exact ⟨fun _ hboth => hother hboth.1, fun _ kind position hr => absurd hr (hnot kind position)⟩
    | true =>
      rw [hreserved] at hunnamed
      cases hsequence : h.sequence with
      | some s => exact ⟨_, rfl, by simp⟩
      | none =>
        refine ⟨.error (.reserved h.kind (index + 2)), rfl, ?_⟩
        rw [hunnamed]
        simp

theorem announcesUnnamed_iff {pairs : List (String × String)} (hlen : bytes.length ≤ maxFrame)
    (hmessage : message.decode bytes = some (pairs, data)) (hh : headerOf E.chrono pairs data = .ok h) :
    AnnouncesUnnamed E.chrono bytes ↔ h.kind ∈ unnamedTypes ∧ h.sequence = none := by
  have hdescribes := headerOf_eq_ok_iff.mp hh
  constructor
  · rintro ⟨-, pairs, data, kind, hpairs, -, hkind, hmem, hsequence⟩
    rw [hmessage] at hpairs
    cases hpairs
    rw [hdescribes.kind.2] at hkind
    cases hkind
    exact ⟨hmem, hdescribes.sequence ▸ hsequence⟩
  · rintro ⟨hmem, hsequence⟩
    exact ⟨hlen, pairs, data, h.kind, hmessage, ⟨h, hdescribes⟩, hdescribes.kind.2, hmem,
      hdescribes.sequence.trans hsequence⟩

/-- Decoding returns, with a position that has no name where the message announces an unnamed type. -/
theorem decodeReceived_returns (E : Env) (content : Bytes) : ∃ received, decodeReceived E content = .ok received ∧
    ((∀ kind position, received.frame = .error (.reserved kind position) → ∃ name, reservedName position = .ok name) ↔
      ¬ AnnouncesUnnamed E.chrono content) := by
  by_cases hlong : maxFrame < content.length
  · refine ⟨⟨⟨none, none, none, none⟩, [], .error (.malformed (.invalid "complete message exceeds MAX_FRAME"))⟩, ?_, ?_⟩
    · unfold decodeReceived decodeHeader
      rw [if_pos hlong]
      rfl
    · exact ⟨fun _ hunnamed => absurd hunnamed.1 (by omega), fun _ => by simp⟩
  cases hmessage : message.decode content with
  | none =>
    refine ⟨⟨⟨none, none, none, none⟩, [], .error (.malformed .postcard)⟩, ?_, fun _ hunnamed => ?_, fun _ => by simp⟩
    · unfold decodeReceived decodeHeader
      rw [if_neg hlong, hmessage]
      rfl
    · obtain ⟨-, pairs, data, kind, hpairs, -⟩ := hunnamed
      rw [hmessage] at hpairs
      cases hpairs
  | some p =>
    obtain ⟨pairs, data⟩ := p
    obtain ⟨dropped, hheader⟩ := @decodeHeader_eq E data content maxFrame pairs (by omega) hmessage
    unfold decodeReceived
    rw [hheader]
    cases hh : headerOf E.chrono pairs data with
    | error e =>
      refine ⟨_, rfl, fun _ hunnamed => ?_, fun _ => by simp⟩
      obtain ⟨-, pairs, data, kind, hpairs, ⟨h, hdescribes⟩, -⟩ := hunnamed
      rw [hmessage] at hpairs
      cases hpairs
      rw [headerOf_eq_ok_iff.mpr hdescribes] at hh
      cases hh
    | ok h =>
      obtain ⟨r, hr, hnamed⟩ := decodeEvent_returns E
        (keptTrace E.traceState (pairs.lookup "traceparent") (pairs.lookup "tracestate")).call h
      refine ⟨⟨_, dropped, r⟩, bind_eq_ok_iff.mpr ⟨_, rfl, bind_eq_ok_iff.mpr ⟨r, hr, rfl⟩⟩, ?_⟩
      rw [announcesUnnamed_iff (by omega) hmessage hh]
      exact hnamed

/-- A received message stops the channel exactly when it announces a reserved type that has no name. -/
theorem receive_returns_iff (E : Env) (fabric : String) (content : Bytes) :
    (∃ receipt, receive E fabric content = .ok receipt) ↔ ¬ AnnouncesUnnamed E.chrono content := by
  obtain ⟨received, hdecoded, hnamed⟩ := decodeReceived_returns E content
  rw [receive_returns_of_decode hdecoded]
  exact hnamed

/-- A calendar that knows the first millisecond. -/
def firstMs : Chrono where
  format ms := if ms = 1 then some "1970-01-01T00:00:00.001Z" else none
  parse s := if s = "1970-01-01T00:00:00.001Z" then some 1 else none

def plainEnv : Env where
  postcard := ⟨⟨fun _ => [], fun _ => none⟩, ⟨fun _ => [], fun _ => none⟩, ⟨fun _ => [], fun _ => none⟩⟩
  chrono := firstMs
  traceState _ := true
  current := ⟨none, none⟩

def committingPairs : List (String × String) :=
  [("specversion", "1.0"), ("id", "rdm.fabric.state.committing/1"),
    ("source", "rdm://1123456789ab/0123456789ab/yrz49j303yh4"), ("type", "rdm.fabric.state.committing"),
    ("subject", "birth/1123456789ab/0123456789ab/yrz49j303yh4"), ("time", "1970-01-01T00:00:00.001Z"),
    ("datacontenttype", "application/octet-stream")]

/-- A message that says it begins a state commit, with data nothing reads. -/
def committing : Bytes := message.enc (committingPairs, [255, 255])

theorem committing_stops : receive plainEnv "1123456789ab" committing = .error .unreachable := by
  have hlen : committing.length ≤ maxFrame := by decide +kernel
  have hdecode : message.decode committing = some (committingPairs, [255, 255]) :=
    Format.decode_enc (message_readsAs (by decide) _) (lt_of_le_of_lt hlen (by decide))
  obtain ⟨dropped, hheader⟩ := @decodeHeader_eq plainEnv [255, 255] committing maxFrame committingPairs hlen hdecode
  have hh : headerOf firstMs committingPairs [255, 255] = .ok ⟨⟨"1123456789ab", "0123456789ab", "yrz49j303yh4"⟩,
      "rdm.fabric.state.committing/1", "rdm.fabric.state.committing", "birth/1123456789ab/0123456789ab/yrz49j303yh4", 1,
      none, none, [255, 255]⟩ := by decide +kernel
  unfold receive decodeReceived
  rw [hheader, show plainEnv.chrono = firstMs from rfl, hh]
  rfl

end DistributedMesh.Gossip
