import DistributedMesh.EnvelopeFields

namespace DistributedMesh.Gossip

open ByteFormats
open Framing (Bytes CallContext canonical)

/-- The calendar writes a time as the text it reads it from. -/
def Chrono.Keeps (chrono : Chrono) (ms : Nat) : Prop :=
  ∀ text, chrono.format ms = some text → chrono.parse text = some (ms : Int) ∧ text ≠ "" ∧ printable text = true

/-- The author is the birth the data name, where they name their publisher, and of the fabric they name. -/
def Consistent (author : Birth) : Frame → Prop
  | .nodeDeleting _ _ publisher _ | .nodeStopped _ _ publisher _ => publisherBirth author.fabric publisher = author
  | .fabricStatus fabric .. => fabric = author.fabric
  | _ => True

section Times

variable {chrono : Chrono} {ms : Nat} {s : String}

theorem date_eq_ok_iff : date chrono ms = .ok s ↔ ms < 2 ^ 63 ∧ chrono.format ms = some s := by
  unfold date
  split
  next hbig =>
    simp only [reduceCtorEq, false_iff, not_and]
    intro hsmall
    omega
  next hsmall =>
    split
    next text htext =>
      rw [htext, Except.ok.injEq, Option.some.injEq]
      exact ⟨fun h => ⟨by omega, h⟩, fun h => h.2⟩
    next hnone => simp [hnone]

theorem dateMs_eq_ok_iff : dateMs chrono s = .ok ms ↔ chrono.parse s = some (ms : Int) ∧ date chrono ms = .ok s := by
  unfold dateMs
  split
  next hnone => simp [hnone]
  next t ht =>
    rw [ht, Option.some.injEq]
    split
    next hneg =>
      simp only [reduceCtorEq, false_iff, not_and]
      intro heq
      omega
    next hpos =>
      split
      next e hdate =>
        simp only [reduceCtorEq, false_iff, not_and]
        rintro rfl
        rw [Int.toNat_natCast] at hdate
        simp [hdate]
      next text hdate =>
        split
        next hne =>
          simp only [reduceCtorEq, false_iff, not_and]
          rintro rfl
          rw [Int.toNat_natCast] at hdate
          rw [hdate, Except.ok.injEq]
          exact hne
        next heq =>
          rw [not_not] at heq
          rw [Except.ok.injEq]
          constructor
          · rintro rfl
            exact ⟨by omega, heq ▸ hdate⟩
          · rintro ⟨rfl, -⟩
            exact Int.toNat_natCast ms

end Times

section Derived

variable {D : Postcard} {f : Frame} {author : Birth} {r now : Nat}

theorem derived_source (hlive : isReserved f.kindIndex = false) (htyped : D.Typed f) (hauthor : author.Canonical) :
    (derivedOf author r now f).source.Canonical := by
  cases f with
  | digest d => exact htyped.2.1
  | topologyFull => exact ⟨hauthor.fabric, htyped.1.nodeId, htyped.1.incarnation⟩
  | topologyDelta => exact ⟨hauthor.fabric, htyped.1.nodeId, htyped.1.incarnation⟩
  | nodeDeleting | nodeDeleted | meshStatus | fabricStatus | nodeStopped => exact hauthor
  | nodeRestarting | concern | nodeConnectionsDeleting | nodeLeaving | nodeLeft | nodeConnectionsDeleted
  | newFabricPrimary | reserved15 | reserved16 | reserved17 | reserved18 => cases hlive

theorem printable_birth {b : Birth} (h : b.Canonical) :
    printable ("birth/" ++ b.fabric ++ "/" ++ b.node ++ "/" ++ b.incarnation) = true := by
  simp only [printable_append, printable_of_canonical h.fabric, printable_of_canonical h.node,
    printable_of_canonical h.incarnation]
  decide

theorem printable_publisher (mesh : String) (parts : List String) :
    printable ("mesh/" ++ escaped mesh ++ "/publisher/" ++ path parts) = true := by
  simp only [printable_append, printable_escaped, printable_path]
  decide

theorem derived_subject (hlive : isReserved f.kindIndex = false) (htyped : D.Typed f) (hauthor : author.Canonical) :
    printable (derivedOf author r now f).subject = true := by
  cases f with
  | digest d =>
    simp only [derivedOf, printable_append, printable_path]
    decide
  | topologyFull => simp only [derivedOf, printable_publisher]
  | topologyDelta => simp only [derivedOf, printable_publisher]
  | nodeDeleting op =>
    have hsubject := @printable_birth ⟨author.fabric, op.nodeId, op.incarnation⟩
      ⟨hauthor.fabric, htyped.1.2.1, htyped.1.2.2⟩
    simpa only [derivedOf] using hsubject
  | nodeStopped op =>
    have hsubject := @printable_birth ⟨author.fabric, op.nodeId, op.incarnation⟩
      ⟨hauthor.fabric, htyped.1.2.1, htyped.1.2.2⟩
    simpa only [derivedOf] using hsubject
  | nodeDeleted op =>
    have hsubject := @printable_birth ⟨author.fabric, op.nodeId, op.incarnation⟩
      ⟨hauthor.fabric, htyped.2.1, htyped.2.2⟩
    simpa only [derivedOf] using hsubject
  | meshStatus mesh =>
    simp only [derivedOf, printable_append, printable_escaped]
    decide
  | fabricStatus fabric =>
    simp only [derivedOf, printable_append, printable_of_canonical htyped.1]
    decide
  | nodeRestarting | concern | nodeConnectionsDeleting | nodeLeaving | nodeLeft | nodeConnectionsDeleted
  | newFabricPrimary | reserved15 | reserved16 | reserved17 | reserved18 => cases hlive

theorem append_ne_empty {s t : String} (h : s ≠ "") : s ++ t ≠ "" := by
  intro heq
  rw [String.append_eq_empty_iff] at heq
  exact h heq.1

theorem derived_subject_ne : (derivedOf author r now f).subject ≠ "" := by
  cases f <;> simp only [derivedOf, String.append_assoc] <;> exact append_ne_empty (by decide)

theorem derived_sequence {s : String} (h : (derivedOf author r now f).sequence = some s) : printable s = true := by
  have hstatus : ∀ t, printable (p r ++ "." ++ p t) = true := by
    intro t
    simp only [printable_append, printable_p]
    decide
  cases f with
  | digest d => exact Option.some.inj h ▸ printable_p _
  | topologyFull => exact Option.some.inj h ▸ printable_p _
  | topologyDelta => exact Option.some.inj h ▸ printable_p _
  | meshStatus => exact Option.some.inj h ▸ hstatus _
  | fabricStatus => exact Option.some.inj h ▸ hstatus _
  | _ => exact absurd h (by simp [derivedOf])

theorem checkScalar_p {n : Nat} (h : n < 2 ^ 64) : checkScalar (p n) = .ok () := by
  unfold checkScalar
  rw [scalar_p h]
  rfl

theorem checkSequence_counter {index n : Nat} (h : index = 0 ∨ index = 1 ∨ index = 2) (hn : n < 2 ^ 64) :
    checkSequence index (some (p n)) = .ok () := by
  unfold checkSequence
  rw [if_pos h]
  exact checkScalar_p hn

theorem checkSequence_status {index t : Nat} (h : index = 6 ∨ index = 7) (hr : r < 2 ^ 64) (ht : t < 2 ^ 64) :
    checkSequence index (some (p r ++ "." ++ p t)) = .ok () := by
  unfold checkSequence
  rw [if_neg (by omega), if_pos h, Option.bind_some, splitOnce_sequence]
  simp only [checkScalar_p hr, checkScalar_p ht]
  rfl

theorem checkSequence_derived (hlive : isReserved f.kindIndex = false) (htyped : D.Typed f) (hr : r < 2 ^ 64) :
    checkSequence f.kindIndex (derivedOf author r now f).sequence = .ok () := by
  cases f with
  | digest d => simp only [derivedOf, Frame.kindIndex, checkSequence_counter (Or.inl rfl) htyped.2.2]
  | topologyFull => simp only [derivedOf, Frame.kindIndex, checkSequence_counter (Or.inr (Or.inl rfl)) htyped.2.1]
  | topologyDelta => simp only [derivedOf, Frame.kindIndex, checkSequence_counter (Or.inr (Or.inr rfl)) htyped.2.2.1]
  | meshStatus => simp only [derivedOf, Frame.kindIndex, checkSequence_status (Or.inl rfl) hr htyped]
  | fabricStatus => simp only [derivedOf, Frame.kindIndex, checkSequence_status (Or.inr rfl) hr htyped.2]
  | nodeDeleting | nodeDeleted | nodeStopped => rfl
  | nodeRestarting | concern | nodeConnectionsDeleting | nodeLeaving | nodeLeft | nodeConnectionsDeleted
  | newFabricPrimary | reserved15 | reserved16 | reserved17 | reserved18 => cases hlive

theorem primaryRevision_status {c : Context} {t : Nat} (h : c.sequence = some (p r ++ "." ++ p t)) (hr : r < 2 ^ 64) :
    c.primaryRevision = some r := by
  simp only [Context.primaryRevision, h, Option.bind_eq_bind, Option.bind_some, splitOnce_sequence, scalar_p hr]

/-- What the data say under the context they were sent with is what they said to their author. -/
theorem derivedOf_again {c : Context} (hlive : isReserved f.kindIndex = false) (hr : r < 2 ^ 64)
    (hsequence : c.sequence = (derivedOf author r now f).sequence) :
    derivedOf (((derivedOf author r now f).publication.map Prod.fst).getD (derivedOf author r now f).source)
      (c.primaryRevision.getD 0) (derivedOf author r now f).timeMs f.asRead = derivedOf author r now f := by
  cases f with
  | digest | topologyFull | topologyDelta | nodeDeleting | nodeDeleted | nodeStopped => rfl
  | meshStatus =>
    rw [primaryRevision_status hsequence hr]
    rfl
  | fabricStatus =>
    rw [primaryRevision_status hsequence hr]
    rfl
  | nodeRestarting | concern | nodeConnectionsDeleting | nodeLeaving | nodeLeft | nodeConnectionsDeleted
  | newFabricPrimary | reserved15 | reserved16 | reserved17 | reserved18 => cases hlive

end Derived

section Attributes

variable {chrono : Chrono} {c : Context} {dataschema : Option String} {attributes : List (String × String)} {data : Bytes}

theorem attributes_eq_ok_iff : c.attributes chrono dataschema = .ok attributes ↔
    ∃ time, date chrono c.timeMs = .ok time ∧ attributes =
      [("specversion", "1.0"), ("id", c.id), ("source", c.source.uri), ("type", c.kind), ("subject", c.subject)] ++
      (c.sequence.map fun s => ("sequence", s)).toList ++
      [("time", time), ("datacontenttype", "application/octet-stream")] ++
      (dataschema.map fun schema => ("dataschema", schema)).toList ++
      (c.traceparent.map fun parent => ("traceparent", parent)).toList ++
      (c.tracestate.map fun state => ("tracestate", state)).toList := by
  unfold Context.attributes
  rw [bind_eq_ok_iff]
  simp only [pure, Except.pure, Except.ok.injEq, eq_comm]

theorem lookup_optional {name key : String} {o : Option String} :
    (o.map fun s => (name, s)).toList.lookup key = if key = name then o else none := by
  cases o with
  | none => simp
  | some s =>
    by_cases hkey : key = name
    · simp [hkey]
    · simp [List.lookup_cons, hkey, beq_eq_false_iff_ne.mpr hkey]

theorem sublist_optional {name : String} {o : Option String} :
    ((o.map fun s => (name, s)).toList.map Prod.fst).Sublist [name] := by
  cases o with
  | none => simp
  | some s => simp

/-- The names of a context's attributes, in their order. -/
def attributeNames : List String :=
  ["specversion", "id", "source", "type", "subject", "sequence", "time", "datacontenttype", "dataschema", "traceparent",
    "tracestate"]

theorem attributes_sublist (h : c.attributes chrono dataschema = .ok attributes) :
    (attributes.map Prod.fst).Sublist attributeNames := by
  obtain ⟨time, -, rfl⟩ := attributes_eq_ok_iff.mp h
  simp only [List.map_append]
  have hhead := ((List.Sublist.refl ["specversion", "id", "source", "type", "subject"]).append
    (@sublist_optional "sequence" c.sequence)).append (List.Sublist.refl ["time", "datacontenttype"])
  exact ((hhead.append sublist_optional).append sublist_optional).append sublist_optional

theorem attributes_length (h : c.attributes chrono dataschema = .ok attributes) : attributes.length < 2 ^ 64 := by
  have hle := (attributes_sublist h).length_le
  rw [List.length_map] at hle
  exact lt_of_le_of_lt hle (by decide)

theorem lookup_trace (h : c.attributes chrono dataschema = .ok attributes) :
    attributes.lookup "traceparent" = c.traceparent ∧ attributes.lookup "tracestate" = c.tracestate := by
  obtain ⟨time, -, rfl⟩ := attributes_eq_ok_iff.mp h
  simp [List.lookup_append, List.lookup_cons, lookup_optional]

/-- Attributes of valid texts say the header of the context they were written from. -/
theorem describes_attributes (h : c.attributes chrono dataschema = .ok attributes) (htime : chrono.Keeps c.timeMs)
    (hsource : c.source.Canonical) (hid : c.id ≠ "" ∧ attributeText c.id = true)
    (hkind : c.kind ≠ "" ∧ attributeText c.kind = true) (hsubject : c.subject ≠ "" ∧ attributeText c.subject = true)
    (hsequence : ∀ s, c.sequence = some s → attributeText s = true)
    (hschema : ∀ s, dataschema = some s → attributeText s = true) :
    Describes chrono attributes data
      ⟨c.source, c.id, c.kind, c.subject, c.timeMs, c.sequence, dataschema, data⟩ := by
  obtain ⟨time, hdate, rfl⟩ := attributes_eq_ok_iff.mp h
  obtain ⟨hparse, htext, hprintable⟩ := htime time (date_eq_ok_iff.mp hdate).2
  have huri : printable c.source.uri = true := by
    simp only [Birth.uri, printable_append, printable_of_canonical hsource.fabric, printable_of_canonical hsource.node,
      printable_of_canonical hsource.incarnation]
    decide
  have huriNe : c.source.uri ≠ "" := by
    unfold Birth.uri
    simp only [String.append_assoc]
    exact append_ne_empty (by decide)
  constructor
  · intro q hq
    have hall : ∀ name ∈ attributeNames, attributeName name = true := by decide
    exact hall q.1 ((attributes_sublist h).subset (List.mem_map_of_mem hq))
  · intro q hq hparent hstate
    simp only [List.mem_append, List.mem_cons, Option.mem_toList, Option.map_eq_some_iff, List.not_mem_nil, or_false] at hq
    rcases hq with (((((rfl | rfl | rfl | rfl | rfl) | ⟨s, hs, rfl⟩) | rfl | rfl) | ⟨s, hs, rfl⟩) | ⟨s, -, rfl⟩) | ⟨s, -, rfl⟩
    · show attributeText "1.0" = true
      decide
    · exact hid.2
    · exact attributeText_of_printable huri
    · exact hkind.2
    · exact hsubject.2
    · exact hsequence s hs
    · exact attributeText_of_printable hprintable
    · show attributeText "application/octet-stream" = true
      decide
    · exact hschema s hs
    · exact absurd rfl hparent
    · exact absurd rfl hstate
  · exact (by decide : attributeNames.Nodup).sublist (attributes_sublist h)
  · simp
  · simp [List.lookup_append, List.lookup_cons, lookup_optional]
  · exact ⟨c.source.uri, huriNe, by simp [List.lookup_cons], parse_uri hsource⟩
  · exact ⟨hid.1, by simp [List.lookup_cons]⟩
  · exact ⟨hkind.1, by simp [List.lookup_cons]⟩
  · exact ⟨hsubject.1, by simp [List.lookup_cons]⟩
  · exact ⟨time, htext, by simp [List.lookup_append, List.lookup_cons, lookup_optional],
      dateMs_eq_ok_iff.mpr ⟨hparse, hdate⟩⟩
  · simp [List.lookup_append, List.lookup_cons, lookup_optional]
  · simp [List.lookup_append, List.lookup_cons, lookup_optional]
  · simp [List.lookup_append, List.lookup_cons, lookup_optional]
  · rfl

end Attributes

section Events

variable {E : Env} {f : Frame} {h : Header} {trace : CallContext} {publication : Option (Birth × Nat)} {carried : Carried}
  {index : Nat}

theorem idxOf?_type (f : Frame) : types.idxOf? f.type = some f.kindIndex := by
  have hall : ∀ k < 19, types.idxOf? (types[k]?.getD "") = some k := by decide +kernel
  exact hall f.kindIndex f.kindIndex_lt

/-- What the data say under the header they came with. -/
def Header.derived (h : Header) (publication : Option (Birth × Nat)) (f : Frame) : Derived :=
  derivedOf ((publication.map Prod.fst).getD h.source)
    ((h.context ⟨none, none, none, none⟩ publication).primaryRevision.getD 0) h.timeMs f

/-- The header is the one its data would have been authored with. -/
structure Header.Agrees (h : Header) (publication : Option (Birth × Nat)) (f : Frame) : Prop where
  id : h.id = f.type ++ "/" ++ path (h.derived publication f).identity
  source : h.source = (h.derived publication f).source
  subject : h.subject = (h.derived publication f).subject
  sequence : h.sequence = (h.derived publication f).sequence
  timeMs : h.timeMs = (h.derived publication f).timeMs

theorem agree_eq_ok_iff : agree E trace h publication f = .ok (.ok carried) ↔
    h.Agrees publication f ∧ carried = ⟨some (h.context trace publication), f⟩ := by
  unfold agree
  rw [authoredIn_eq]
  show (if _ then _ else _) = _ ↔ _
  split
  next hdiffers =>
    simp only [pure, Except.pure, Except.ok.injEq, reduceCtorEq, false_iff, not_and]
    intro hagrees
    rcases hdiffers with hd | hd | hd | hd | hd
    · exact absurd hagrees.id hd
    · exact absurd hagrees.source hd
    · exact absurd hagrees.subject hd
    · exact absurd hagrees.sequence hd
    · exact absurd hagrees.timeMs hd
  next hsame =>
    simp only [not_or, not_not] at hsame
    simp only [pure, Except.pure, Except.ok.injEq]
    constructor
    · rintro rfl
      exact ⟨⟨hsame.1, hsame.2.1, hsame.2.2.1, hsame.2.2.2.1, hsame.2.2.2.2⟩, rfl⟩
    · exact fun h => h.2.symm

theorem sourceAgrees_of_consistent {author : Birth} {r now : Nat} (h : Consistent author f) :
    sourceAgrees (derivedOf author r now f).source f.asRead = .ok () := by
  cases f with
  | nodeDeleting op forwardedBy publisher version => exact if_neg (not_not.mpr h)
  | nodeStopped op forwardedBy publisher version => exact if_neg (not_not.mpr h)
  | fabricStatus fabric => exact if_neg (not_not.mpr h)
  | _ => rfl

theorem orRefuse_eq_ok_iff {α β : Type} {x : Except WireError α} {next : α → Except Panic (Except DecodeError β)} {y : β} :
    orRefuse x next = .ok (.ok y) ↔ ∃ a, x = .ok a ∧ next a = .ok (.ok y) := by
  cases x with
  | error e => simp [orRefuse]
  | ok a => simp [orRefuse]

theorem decodeEvent_eq_ok_iff : decodeEvent E trace h = .ok (.ok carried) ↔
    ∃ index fields publication f, types.idxOf? h.kind = some index ∧ isReserved index = false ∧
      checkSequence index h.sequence = .ok () ∧ publicationOf index h.data = .ok (.ok (fields, publication)) ∧
      decodeFrame E.postcard index fields = .ok f ∧ sourceAgrees h.source f = .ok () ∧ h.Agrees publication f ∧
      carried = ⟨some (h.context trace publication), f⟩ := by
  constructor
  · intro hok
    unfold decodeEvent at hok
    split at hok
    next => cases hok
    next index hindex =>
      split at hok
      next =>
        split at hok
        next => cases hok
        next => cases hok
      next hlive =>
        unfold decodeData at hok
        obtain ⟨_, hsequence, htake⟩ := orRefuse_eq_ok_iff.mp hok
        obtain ⟨taken, htaken, hread⟩ := bind_eq_ok_iff.mp htake
        obtain ⟨⟨fields, publication⟩, hfields, hframes⟩ := orRefuse_eq_ok_iff.mp hread
        obtain ⟨f, hframe, hsources⟩ := orRefuse_eq_ok_iff.mp hframes
        obtain ⟨_, hsource, hagree⟩ := orRefuse_eq_ok_iff.mp hsources
        obtain ⟨hagrees, hcarried⟩ := agree_eq_ok_iff.mp hagree
        exact ⟨index, fields, publication, f, hindex, by simpa using hlive, hsequence, hfields ▸ htaken, hframe, hsource,
          hagrees, hcarried⟩
  · rintro ⟨index, fields, publication, f, hindex, hlive, hsequence, htaken, hframe, hsource, hagrees, hcarried⟩
    unfold decodeEvent decodeData
    rw [hindex]
    simp only [hlive, Bool.false_eq_true, if_false]
    exact orRefuse_eq_ok_iff.mpr ⟨(), hsequence, bind_eq_ok_iff.mpr ⟨_, htaken, orRefuse_eq_ok_iff.mpr ⟨_, rfl,
      orRefuse_eq_ok_iff.mpr ⟨f, hframe, orRefuse_eq_ok_iff.mpr ⟨(), hsource, agree_eq_ok_iff.mpr ⟨hagrees, hcarried⟩⟩⟩⟩⟩⟩

theorem decode_eq_ok_iff {bytes : Bytes} : decode E bytes = .ok (.ok carried) ↔ bytes.length ≤ maxFrame ∧
    ∃ pairs data h, message.decode bytes = some (pairs, data) ∧ Describes E.chrono pairs data h ∧
      decodeEvent E (keptTrace E.traceState (pairs.lookup "traceparent") (pairs.lookup "tracestate")).call h =
        .ok (.ok carried) := by
  constructor
  · intro hok
    unfold decode at hok
    by_cases hlong : maxFrame < bytes.length
    · unfold decodeReceived decodeHeader at hok
      rw [if_pos hlong] at hok
      cases hok
    cases hmessage : message.decode bytes with
    | none =>
      unfold decodeReceived decodeHeader at hok
      rw [if_neg hlong, hmessage] at hok
      cases hok
    | some q =>
      obtain ⟨pairs, data⟩ := q
      obtain ⟨lost, hheader⟩ := @decodeHeader_eq E data bytes maxFrame pairs (by omega) hmessage
      unfold decodeReceived at hok
      rw [hheader] at hok
      cases hh : headerOf E.chrono pairs data with
      | error e =>
        rw [hh] at hok
        cases hok
      | ok h =>
        rw [hh] at hok
        obtain ⟨received, hreceived, hframe⟩ := bind_eq_ok_iff.mp hok
        obtain ⟨q, hq, hevent⟩ := bind_eq_ok_iff.mp hreceived
        cases hq
        obtain ⟨r, hr, hdone⟩ := bind_eq_ok_iff.mp hevent
        cases hdone
        cases hframe
        exact ⟨by omega, pairs, data, h, rfl, headerOf_eq_ok_iff.mp hh, hr⟩
  · rintro ⟨hlen, pairs, data, h, hmessage, hdescribes, hevent⟩
    obtain ⟨dropped, hheader⟩ := @decodeHeader_eq E data bytes maxFrame pairs hlen hmessage
    unfold decode decodeReceived
    rw [hheader, headerOf_eq_ok_iff.mpr hdescribes]
    let trace := (keptTrace E.traceState (pairs.lookup "traceparent") (pairs.lookup "tracestate")).call
    refine bind_eq_ok_iff.mpr ⟨⟨trace, dropped, .ok carried⟩, ?_, rfl⟩
    exact bind_eq_ok_iff.mpr ⟨_, rfl, bind_eq_ok_iff.mpr ⟨_, hevent, rfl⟩⟩

end Events

section RoundTrip

variable {E : Env} {f : Frame} {author : Birth} {r now : Nat} {c : Context} {bytes data : Bytes}

theorem Frame.asRead_kindIndex (f : Frame) : f.asRead.kindIndex = f.kindIndex := by
  cases f <;> rfl

theorem encode_eq_ok_iff : encode E c f = .ok bytes ↔ ∃ data attributes, body E.postcard c f = .ok data ∧
    c.attributes E.chrono none = .ok attributes ∧ bytes = message.enc (attributes, data) := by
  unfold encode encodeData
  simp only [bind_eq_ok_iff]
  constructor
  · rintro ⟨data, hbody, attributes, hattributes, hbytes⟩
    cases hbytes
    exact ⟨data, attributes, hbody, hattributes, rfl⟩
  · rintro ⟨data, attributes, hbody, hattributes, rfl⟩
    exact ⟨data, hbody, attributes, hattributes, rfl⟩

theorem length_data_le (pairs : List (String × String)) (data : Bytes) :
    data.length ≤ (message.enc (pairs, data)).length := by
  show _ ≤ ((text.pair text).list.enc pairs ++ (ByteFormats.encode 10 data.length ++ data)).length
  simp only [List.length_append]
  omega

theorem decode_message {pairs : List (String × String)} {limit : Nat} (hcount : pairs.length < 2 ^ 64)
    (hlen : (message.enc (pairs, data)).length ≤ limit) (hlimit : limit < 2 ^ 64) :
    message.decode (message.enc (pairs, data)) = some (pairs, data) :=
  Format.decode_enc (message_readsAs hcount data) (lt_of_le_of_lt hlen hlimit)

theorem describes_authored {attributes : List (String × String)} (hlive : isReserved f.kindIndex = false)
    (htyped : E.postcard.Typed f) (hauthor : author.Canonical)
    (hc : Context.authoredIn E f author r now = .ok c) (htime : E.chrono.Keeps c.timeMs)
    (h : c.attributes E.chrono none = .ok attributes) : Describes E.chrono attributes data
      ⟨c.source, c.id, c.kind, c.subject, c.timeMs, c.sequence, none, data⟩ := by
  rw [authoredIn_eq] at hc
  cases hc
  have hkind : f.type ≠ "" ∧ printable f.type = true := by
    have hall : ∀ k < 19, types[k]?.getD "" ≠ "" ∧ printable (types[k]?.getD "") = true := by decide +kernel
    exact hall f.kindIndex f.kindIndex_lt
  have hid : printable (f.type ++ "/" ++ path (derivedOf author r now f).identity) = true := by
    rw [printable_append, printable_append, hkind.2, printable_path]
    decide
  refine describes_attributes h htime (derived_source hlive htyped hauthor) ⟨?_, attributeText_of_printable hid⟩
    ⟨hkind.1, attributeText_of_printable hkind.2⟩
    ⟨derived_subject_ne, attributeText_of_printable (derived_subject hlive htyped hauthor)⟩
    (fun s hs => attributeText_of_printable (derived_sequence hs)) (fun s hs => nomatch hs)
  show f.type ++ "/" ++ path _ ≠ ""
  rw [String.append_assoc]
  exact append_ne_empty hkind.1

/-- A frame encoded under its author's context is read as the same frame under the same context. -/
theorem decode_encode (current : Trace) (hlive : isReserved f.kindIndex = false) (htyped : E.postcard.Typed f)
    (hfits : (E.postcard.fields f).length < 2 ^ 64) (hauthor : author.Canonical) (hconsistent : Consistent author f)
    (hr : r < 2 ^ 64) (hc : Context.authoredIn E f author r now = .ok c) (htime : E.chrono.Keeps c.timeMs)
    (hencode : encode E c f = .ok bytes) (hlen : bytes.length ≤ maxFrame) :
    decode { E with current := current } bytes = .ok (.ok ⟨some c, f.asRead⟩) := by
  obtain ⟨data, attributes, hbody, hattributes, rfl⟩ := encode_eq_ok_iff.mp hencode
  have hdecode := decode_message (attributes_length hattributes) hlen (by decide)
  have hdescribes := @describes_authored E f author r now c data attributes hlive htyped hauthor hc htime hattributes
  refine decode_eq_ok_iff.mpr ⟨hlen, attributes, data, _, hdecode, hdescribes, ?_⟩
  have hdata : data.length < 2 ^ 64 := lt_of_le_of_lt ((length_data_le attributes data).trans hlen) (by decide)
  have htrace := lookup_trace hattributes
  rw [authoredIn_eq] at hc
  obtain rfl := Except.ok.inj hc
  refine decodeEvent_eq_ok_iff.mpr ⟨f.kindIndex, E.postcard.fields f, (derivedOf author r now f).publication, f.asRead,
    idxOf?_type f, hlive, checkSequence_derived hlive htyped hr, publicationOf_body htyped hauthor rfl hfits hbody hdata,
    decodeFrame_fields hlive htyped hfits, sourceAgrees_of_consistent hconsistent, ?_, ?_⟩
  · let h : Header := ⟨(derivedOf author r now f).source, f.type ++ "/" ++ path (derivedOf author r now f).identity, f.type,
      (derivedOf author r now f).subject, (derivedOf author r now f).timeMs, (derivedOf author r now f).sequence, none, data⟩
    have hagain : h.derived (derivedOf author r now f).publication f.asRead = derivedOf author r now f :=
      derivedOf_again hlive hr rfl
    have htype : f.asRead.type = f.type := by
      unfold Frame.type
      rw [f.asRead_kindIndex]
    show h.Agrees _ _
    constructor
    · rw [hagain, htype]
    · rw [hagain]
    · rw [hagain]
    · rw [hagain]
    · rw [hagain]
  · rw [htrace.1, htrace.2]
    simp only [Context.authored, Header.context, Trace.call, keptTrace_keptTrace]

end RoundTrip

end DistributedMesh.Gossip
