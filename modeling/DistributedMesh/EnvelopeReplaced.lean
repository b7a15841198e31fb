import DistributedMesh.EnvelopeRoundTrip

namespace DistributedMesh.Gossip

open ByteFormats
open Framing (Bytes canonical)

/-- The attributes with another value for one of them. -/
def replaced (name value : String) (pairs : List (String × String)) : List (String × String) :=
  pairs.map fun p => if p.1 = name then (p.1, value) else p

/-- The data name the birth that they are of. -/
def Frame.namesAuthor : Frame → Bool
  | .digest .. | .topologyFull .. | .topologyDelta .. | .nodeDeleting .. | .nodeStopped .. => true
  | _ => false

/-- The fabric of their source is in what the data, or their subject, say. -/
def Frame.namesFabric : Frame → Bool
  | .nodeDeleted .. | .fabricStatus .. => true
  | f => f.namesAuthor

theorem namesFabric_of_namesAuthor {f : Frame} (h : f.namesAuthor = true) : f.namesFabric = true := by
  cases f <;> first | rfl | cases h

/-- Another value of an attribute that the frame's data determine: of the source, as much as they say of it. -/
def Determined (f : Frame) (source : Birth) (name value : String) : Prop :=
  name ∈ ["id", "type", "subject", "sequence", "time"] ∨
    name = "source" ∧ (f.namesAuthor = true ∨ f.namesFabric = true ∧ ∀ b, Birth.parse value = .ok b → b.fabric ≠ source.fabric)

section Replacing

variable {pairs : List (String × String)} {name value key old : String}

theorem lookup_replaced_of_ne (h : key ≠ name) : (replaced name value pairs).lookup key = pairs.lookup key := by
  unfold replaced
  induction pairs with
  | nil => rfl
  | cons q pairs ih =>
    obtain ⟨k, v⟩ := q
    rw [List.map_cons, List.lookup_cons]
    by_cases hk : k = name
    · have hkey : (key == k) = false := beq_eq_false_iff_ne.mpr (hk ▸ h)
      simp only [if_pos hk, List.lookup_cons, hkey, ih]
    · simp only [if_neg hk, List.lookup_cons, ih]

theorem lookup_replaced_self (h : pairs.lookup name = some old) : (replaced name value pairs).lookup name = some value := by
  unfold replaced
  induction pairs with
  | nil => cases h
  | cons q pairs ih =>
    obtain ⟨k, v⟩ := q
    rw [List.map_cons, List.lookup_cons]
    by_cases hk : k = name
    · simp [hk]
    · have hkey : (name == k) = false := beq_eq_false_iff_ne.mpr (Ne.symm hk)
      rw [List.lookup_cons, hkey] at h
      simp only [if_neg hk, hkey]
      exact ih h

end Replacing

/-- The header's type selects this frame of its data, and the two agree. -/
structure Selected (D : Postcard) (h : Header) (publication : Option (Birth × Nat)) (f : Frame) : Prop where
  index : types.idxOf? h.kind = some f.kindIndex
  live : isReserved f.kindIndex = false
  data : ∃ fields, publicationOf f.kindIndex h.data = .ok (.ok (fields, publication)) ∧
    decodeFrame D f.kindIndex fields = .ok f
  source : sourceAgrees h.source f = .ok ()
  agrees : h.Agrees publication f

section Selecting

variable {D : Postcard} {E : Env} {h h' : Header} {publication publication' : Option (Birth × Nat)} {f f' : Frame}

theorem selected_of_decodeEvent {trace : Framing.CallContext} {carried : Carried}
    (hok : decodeEvent E trace h = .ok (.ok carried)) :
    ∃ publication, Selected E.postcard h publication carried.data := by
  obtain ⟨index, fields, publication, f, hindex, hlive, -, htaken, hframe, hsource, hagrees, rfl⟩ :=
    decodeEvent_eq_ok_iff.mp hok
  obtain rfl := kindIndex_of_decodeFrame (idxOf?_types hindex).1 hlive hframe
  exact ⟨publication, hindex, hlive, ⟨fields, htaken, hframe⟩, hsource, hagrees⟩

theorem Selected.kind_eq (hs : Selected D h publication f) : h.kind = f.type := by
  have hget := (idxOf?_types hs.index).2
  unfold Frame.type
  rw [hget]
  rfl

theorem Selected.unique (hs : Selected D h publication f) (hs' : Selected D h' publication' f') (hkind : h'.kind = h.kind)
    (hdata : h'.data = h.data) : f' = f ∧ publication' = publication := by
  have hindex := hs'.index
  rw [hkind, hs.index] at hindex
  obtain ⟨fields, htaken, hframe⟩ := hs.data
  obtain ⟨fields', htaken', hframe'⟩ := hs'.data
  rw [← Option.some.inj hindex, hdata, htaken] at htaken'
  cases htaken'
  rw [← Option.some.inj hindex, hframe] at hframe'
  cases hframe'
  exact ⟨rfl, rfl⟩

theorem derived_congr (hsource : h'.source = h.source) (hsequence : h'.sequence = h.sequence)
    (htime : h'.timeMs = h.timeMs) : h'.derived publication f = h.derived publication f := by
  unfold Header.derived Context.primaryRevision Header.context
  rw [hsource, hsequence, htime]

variable {a a' : Birth} {r r' now now' : Nat}

theorem derived_timeMs_live (hlive : isReserved f.kindIndex = false) :
    (derivedOf a r now f).timeMs = (derivedOf a' r' now' f).timeMs := by
  cases f with
  | digest | topologyFull | topologyDelta | nodeDeleting | nodeDeleted | meshStatus | fabricStatus | nodeStopped => rfl
  | nodeRestarting | concern | nodeConnectionsDeleting | nodeLeaving | nodeLeft | nodeConnectionsDeleted
  | newFabricPrimary | reserved15 | reserved16 | reserved17 | reserved18 => cases hlive

theorem path_three (x y z : String) : path [x, y, z] = escaped x ++ ("/" ++ (escaped y ++ ("/" ++ escaped z))) := by
  simp [path, String.append_assoc]

theorem path_first {x x' y z : String} (h : path [x, y, z] = path [x', y, z]) : escaped x = escaped x' := by
  rw [path_three, path_three] at h
  exact (String.append_left_inj _).mp h

theorem path_second {x y y' z : String} (h : path [x, y, z] = path [x, y', z]) : escaped y = escaped y' := by
  rw [path_three, path_three, String.append_right_inj, String.append_right_inj] at h
  exact (String.append_left_inj _).mp h

/-- The revision in a status sequence is in the event's identity too. -/
theorem sequence_of_identity (hlive : isReserved f.kindIndex = false)
    (h : path (derivedOf a r now f).identity = path (derivedOf a r' now f).identity) :
    (derivedOf a r now f).sequence = (derivedOf a r' now f).sequence := by
  have hrevision : ∀ {x z : String}, path [x, toString r, z] = path [x, toString r', z] → r = r' := by
    intro x z hpath
    have hescaped := path_second hpath
    rw [escaped_toString, escaped_toString] at hescaped
    exact toString_inj hescaped
  cases f with
  | digest | topologyFull | topologyDelta | nodeDeleting | nodeDeleted | nodeStopped => rfl
  | meshStatus => rw [hrevision h]
  | fabricStatus => rw [hrevision h]
  | nodeRestarting | concern | nodeConnectionsDeleting | nodeLeaving | nodeLeft | nodeConnectionsDeleted
  | newFabricPrimary | reserved15 | reserved16 | reserved17 | reserved18 => cases hlive

theorem takePublication_isSome {data fields : Bytes} (h : takePublication data = .ok (.ok (fields, publication))) :
    publication.isSome := by
  unfold takePublication at h
  split at h
  next => cases h
  next =>
    split at h
    next => cases h
    next =>
      dsimp only at h
      split at h
      next => cases h
      next =>
        split at h
        next => cases h
        next =>
          cases h
          rfl

/-- Data are under a publication of their own exactly when they are a whole topology. -/
theorem Selected.publication_isSome_iff (hs : Selected D h publication f) : publication.isSome ↔ f.kindIndex = 1 := by
  obtain ⟨fields, htaken, -⟩ := hs.data
  unfold publicationOf at htaken
  split at htaken
  next hindex => simp [hindex, takePublication_isSome htaken]
  next hindex =>
    cases htaken
    simp [hindex]

theorem Selected.derived_eq (hs : Selected D h publication f) (hkind : f.kindIndex ≠ 1) :
    h.derived publication f = derivedOf h.source ((h.context ⟨none, none, none, none⟩ publication).primaryRevision.getD 0)
      h.timeMs f := by
  have hnone : publication = none := by
    rw [← Option.not_isSome_iff_eq_none, hs.publication_isSome_iff]
    exact hkind
  unfold Header.derived
  rw [hnone]
  rfl

theorem fabric_of_subject {x x' node incarnation : String}
    (h : "birth/" ++ x ++ "/" ++ node ++ "/" ++ incarnation = "birth/" ++ x' ++ "/" ++ node ++ "/" ++ incarnation) :
    x = x' := by
  simp only [String.append_assoc, String.append_right_inj] at h
  exact (String.append_left_inj _).mp h

theorem fabric_of_publisher {mesh node incarnation x x' : String} (hx : canonical x = true) (hx' : canonical x' = true)
    (h : "mesh/" ++ escaped mesh ++ "/publisher/" ++ path [x, node, incarnation] =
      "mesh/" ++ escaped mesh ++ "/publisher/" ++ path [x', node, incarnation]) : x = x' := by
  have hescaped := path_first ((String.append_right_inj _).mp h)
  rwa [escaped_canonical hx, escaped_canonical hx'] at hescaped

theorem eq_of_ite_ok {α : Type} [DecidableEq α] {x y : α} {e : WireError}
    (h : (if x ≠ y then .error e else .ok ()) = Except.ok ()) : x = y := by
  by_contra hne
  rw [if_pos hne] at h
  cases h

theorem Selected.fabric_eq (hs : Selected D h publication f) (hs' : Selected D h' publication f)
    (hnames : f.namesFabric = true) (hc : h.source.Canonical) (hc' : h'.source.Canonical)
    (hsubject : h'.subject = h.subject) : h'.source.fabric = h.source.fabric := by
  have hsubjects := hsubject
  rw [hs.agrees.subject, hs'.agrees.subject] at hsubjects
  cases f with
  | digest d => rw [hs.agrees.source, hs'.agrees.source]; rfl
  | topologyFull =>
    obtain ⟨q, rfl⟩ := Option.isSome_iff_exists.mp (hs.publication_isSome_iff.mpr rfl)
    rw [hs.agrees.source, hs'.agrees.source]
    rfl
  | topologyDelta mesh publisher =>
    rw [hs.derived_eq (by simp [Frame.kindIndex]), hs'.derived_eq (by simp [Frame.kindIndex])] at hsubjects
    exact fabric_of_publisher hc'.fabric hc.fabric hsubjects
  | nodeDeleting op =>
    rw [hs.derived_eq (by simp [Frame.kindIndex]), hs'.derived_eq (by simp [Frame.kindIndex])] at hsubjects
    exact fabric_of_subject hsubjects
  | nodeStopped op =>
    rw [hs.derived_eq (by simp [Frame.kindIndex]), hs'.derived_eq (by simp [Frame.kindIndex])] at hsubjects
    exact fabric_of_subject hsubjects
  | nodeDeleted op =>
    rw [hs.derived_eq (by simp [Frame.kindIndex]), hs'.derived_eq (by simp [Frame.kindIndex])] at hsubjects
    exact fabric_of_subject hsubjects
  | fabricStatus fabric =>
    have hfabric : fabric = h.source.fabric := eq_of_ite_ok hs.source
    have hfabric' : fabric = h'.source.fabric := eq_of_ite_ok hs'.source
    exact hfabric'.symm.trans hfabric
  | _ => cases hnames

theorem Selected.source_eq (hs : Selected D h publication f) (hs' : Selected D h' publication f)
    (hnames : f.namesAuthor = true) (hfabric : h'.source.fabric = h.source.fabric) : h'.source = h.source := by
  cases f with
  | digest d =>
    rw [hs.agrees.source, hs'.agrees.source]
    rfl
  | topologyFull =>
    obtain ⟨q, rfl⟩ := Option.isSome_iff_exists.mp (hs.publication_isSome_iff.mpr rfl)
    rw [hs.agrees.source, hs'.agrees.source]
    rfl
  | topologyDelta mesh publisher =>
    have hsource := hs.agrees.source
    have hsource' := hs'.agrees.source
    rw [hs.derived_eq (by simp [Frame.kindIndex])] at hsource
    rw [hs'.derived_eq (by simp [Frame.kindIndex])] at hsource'
    rw [hsource, hsource']
    show publisherBirth h'.source.fabric publisher = publisherBirth h.source.fabric publisher
    rw [hfabric]
  | nodeDeleting op forwardedBy publisher version =>
    have hsource : publisherBirth h.source.fabric publisher = h.source := eq_of_ite_ok hs.source
    have hsource' : publisherBirth h'.source.fabric publisher = h'.source := eq_of_ite_ok hs'.source
    rw [← hsource, ← hsource', hfabric]
  | nodeStopped op forwardedBy publisher version =>
    have hsource : publisherBirth h.source.fabric publisher = h.source := eq_of_ite_ok hs.source
    have hsource' : publisherBirth h'.source.fabric publisher = h'.source := eq_of_ite_ok hs'.source
    rw [← hsource, ← hsource', hfabric]
  | _ => cases hnames

theorem type_of_id {x y : List String} (h : f'.type ++ "/" ++ path x = f.type ++ "/" ++ path y) : f'.type = f.type := by
  have hslash : ∀ k < 19, '/' ∉ (types[k]?.getD "").toList := by decide +kernel
  have hlists := congrArg (fun s : String => s.toList.takeWhile (· ≠ '/')) h
  have hne : ∀ g : Frame, ∀ c ∈ g.type.toList, decide (c ≠ '/') = true := by
    intro g c hc
    rw [decide_eq_true_eq]
    rintro rfl
    exact hslash g.kindIndex g.kindIndex_lt hc
  simp only [String.toList_append, List.append_assoc] at hlists
  rw [List.takeWhile_append_of_pos (hne f'), List.takeWhile_append_of_pos (hne f)] at hlists
  apply String.toList_inj.mp
  simpa using hlists

end Selecting

section Refusing

variable {D : Postcard} {chrono : Chrono} {pairs : List (String × String)} {data : Bytes} {h h' : Header}
  {publication publication' : Option (Birth × Nat)} {f f' : Frame} {name value old : String}

/-- Headers that differ at most in what one attribute says. -/
structure SameBut (name : String) (h h' : Header) : Prop where
  id : name ≠ "id" → h'.id = h.id
  source : name ≠ "source" → h'.source = h.source
  kind : name ≠ "type" → h'.kind = h.kind
  subject : name ≠ "subject" → h'.subject = h.subject
  timeMs : name ≠ "time" → h'.timeMs = h.timeMs
  sequence : name ≠ "sequence" → h'.sequence = h.sequence
  data : h'.data = h.data

theorem sameBut_of_describes (hd : Describes chrono pairs data h)
    (hd' : Describes chrono (replaced name value pairs) data h') : SameBut name h h' := by
  have hother : ∀ {key}, name ≠ key → (replaced name value pairs).lookup key = pairs.lookup key :=
    fun hkey => lookup_replaced_of_ne hkey.symm
  constructor
  · intro hne
    exact Option.some.inj (hd'.id.2.symm.trans ((hother hne).trans hd.id.2))
  · intro hne
    obtain ⟨uri, -, huri, hparse⟩ := hd.source
    obtain ⟨uri', -, huri', hparse'⟩ := hd'.source
    rw [hother hne, huri] at huri'
    rw [← Option.some.inj huri', hparse] at hparse'
    exact (Except.ok.inj hparse').symm
  · intro hne
    exact Option.some.inj (hd'.kind.2.symm.trans ((hother hne).trans hd.kind.2))
  · intro hne
    exact Option.some.inj (hd'.subject.2.symm.trans ((hother hne).trans hd.subject.2))
  · intro hne
    obtain ⟨text, -, htext, hms⟩ := hd.time
    obtain ⟨text', -, htext', hms'⟩ := hd'.time
    rw [hother hne, htext] at htext'
    rw [← Option.some.inj htext', hms] at hms'
    exact (Except.ok.inj hms').symm
  · intro hne
    rw [← hd'.sequence, ← hd.sequence]
    exact hother hne
  · exact hd'.data.symm.trans hd.data

/-- A header that agrees with its data is the only one of those that differ from it where the data determine it. -/
theorem Selected.determines (hsame : SameBut name h h') (hs : Selected D h publication f)
    (hs' : Selected D h' publication' f') (hc : h.source.Canonical) (hc' : h'.source.Canonical)
    (hdetermined : name ∈ ["id", "type", "subject", "sequence", "time"] ∨
      name = "source" ∧ (f.namesAuthor = true ∨ f.namesFabric = true ∧ h'.source.fabric ≠ h.source.fabric)) :
    h'.id = h.id ∧ h'.kind = h.kind ∧ h'.subject = h.subject ∧ h'.sequence = h.sequence ∧ h'.timeMs = h.timeMs ∧
      h'.source = h.source := by
  have hkind : h'.kind = h.kind := by
    by_cases hname : name = "type"
    · have hid := hsame.id (by simp [hname])
      rw [hs.agrees.id, hs'.agrees.id] at hid
      rw [hs.kind_eq, hs'.kind_eq, type_of_id hid]
    · exact hsame.kind hname
  obtain ⟨rfl, rfl⟩ := hs.unique hs' hkind hsame.data
  have htime : h'.timeMs = h.timeMs := by
    rw [hs.agrees.timeMs, hs'.agrees.timeMs]
    exact derived_timeMs_live hs.live
  have hsource : h'.source = h.source := by
    by_cases hname : name = "source"
    · have hsubject := hsame.subject (by simp [hname])
      rcases hdetermined with hmem | ⟨-, hauthor | ⟨hnames, hfabric⟩⟩
      · rw [hname] at hmem
        exact absurd hmem (by decide)
      · exact hs.source_eq hs' hauthor (hs.fabric_eq hs' (namesFabric_of_namesAuthor hauthor) hc hc' hsubject)
      · exact absurd (hs.fabric_eq hs' hnames hc hc' hsubject) hfabric
    · exact hsame.source hname
  have hsequence : h'.sequence = h.sequence := by
    by_cases hname : name = "sequence"
    · have hid := hsame.id (by simp [hname])
      rw [hs.agrees.id, hs'.agrees.id, String.append_right_inj] at hid
      rw [hs.agrees.sequence, hs'.agrees.sequence]
      unfold Header.derived at hid ⊢
      rw [hsource, htime] at hid ⊢
      exact sequence_of_identity hs.live hid
    · exact hsame.sequence hname
  have hderived : h'.derived publication' f' = h.derived publication' f' := derived_congr hsource hsequence htime
  refine ⟨?_, hkind, ?_, hsequence, htime, hsource⟩
  · rw [hs.agrees.id, hs'.agrees.id, hderived]
  · rw [hs.agrees.subject, hs'.agrees.subject, hderived]

/-- Attributes in which one value was replaced are accepted with no value that the data determine but the one that they
were authored with. -/
theorem value_eq_of_selected (hd : Describes chrono pairs data h) (hs : Selected D h publication f)
    (hd' : Describes chrono (replaced name value pairs) data h') (hs' : Selected D h' publication' f')
    (hold : pairs.lookup name = some old) (hdetermined : Determined f h.source name value) : value = old := by
  have hvalue := @lookup_replaced_self pairs name value old hold
  obtain ⟨uri, -, huri, hparse⟩ := hd.source
  obtain ⟨uri', -, huri', hparse'⟩ := hd'.source
  obtain ⟨heq, hc⟩ := uri_of_parse hparse
  obtain ⟨heq', hc'⟩ := uri_of_parse hparse'
  have hdetermines := hs.determines (sameBut_of_describes hd hd') hs' hc hc'
  rcases hdetermined with hmem | ⟨rfl, hsource⟩
  · obtain ⟨hid, hkind, hsubject, hsequence, htime, -⟩ := hdetermines (Or.inl hmem)
    simp only [List.mem_cons, List.not_mem_nil, or_false] at hmem
    rcases hmem with rfl | rfl | rfl | rfl | rfl
    · rw [hd'.id.2, hid, ← hd.id.2, hold] at hvalue
      exact (Option.some.inj hvalue).symm
    · rw [hd'.kind.2, hkind, ← hd.kind.2, hold] at hvalue
      exact (Option.some.inj hvalue).symm
    · rw [hd'.subject.2, hsubject, ← hd.subject.2, hold] at hvalue
      exact (Option.some.inj hvalue).symm
    · rw [hd'.sequence, hsequence, ← hd.sequence, hold] at hvalue
      exact (Option.some.inj hvalue).symm
    · obtain ⟨text, -, htext, hms⟩ := hd.time
      obtain ⟨text', -, htext', hms'⟩ := hd'.time
      have hdate := (dateMs_eq_ok_iff.mp hms).2
      have hdate' := (dateMs_eq_ok_iff.mp hms').2
      rw [htime, hdate] at hdate'
      rw [htext', ← Except.ok.inj hdate', ← htext, hold] at hvalue
      exact (Option.some.inj hvalue).symm
  · have huris : h'.source = h.source → value = old := by
      intro hsame
      rw [huri', heq', hsame, ← heq, ← huri, hold] at hvalue
      exact (Option.some.inj hvalue).symm
    rcases hsource with hauthor | ⟨hnames, hfabric⟩
    · obtain ⟨-, -, -, -, -, hsame⟩ := hdetermines (Or.inr ⟨rfl, Or.inl hauthor⟩)
      exact huris hsame
    · rw [huri'] at hvalue
      have hother := hfabric h'.source (Option.some.inj hvalue ▸ hparse')
      obtain ⟨-, -, -, -, -, hsame⟩ := hdetermines (Or.inr ⟨rfl, Or.inr ⟨hnames, hother⟩⟩)
      rw [← huri'] at hvalue
      exact huris hsame

theorem length_replaced : (replaced name value pairs).length = pairs.length := by
  unfold replaced
  exact List.length_map _

end Refusing

section RoundTrip

variable {E : Env} {f : Frame} {author : Birth} {r now : Nat} {c : Context} {bytes : Bytes}

theorem determined_asRead {source : Birth} {name value : String} :
    Determined f.asRead source name value ↔ Determined f source name value := by
  have hauthor : f.asRead.namesAuthor = f.namesAuthor := by cases f <;> rfl
  have hfabric : f.asRead.namesFabric = f.namesFabric := by cases f <;> rfl
  unfold Determined
  rw [hauthor, hfabric]

theorem source_of_decodeEvent {trace : Framing.CallContext} {h : Header}
    (hok : decodeEvent E trace h = .ok (.ok ⟨some c, f⟩)) : h.source = c.source := by
  obtain ⟨index, fields, publication, g, -, -, -, -, -, -, -, hcarried⟩ := decodeEvent_eq_ok_iff.mp hok
  cases hcarried
  rfl

theorem decode_returns (E : Env) (bytes : Bytes) : ∃ r, decode E bytes = .ok r := by
  obtain ⟨received, hreceived, -⟩ := decodeReceived_returns E bytes
  exact ⟨received.frame, bind_eq_ok_iff.mpr ⟨received, hreceived, rfl⟩⟩

/-- A frame encoded under its author's context is read back with that context and its data, and with another value for an
attribute that its data determine the message is refused. -/
theorem envelope_round_trip (current : Trace) (hlive : isReserved f.kindIndex = false) (htyped : E.postcard.Typed f)
    (hfits : (E.postcard.fields f).length < 2 ^ 64) (hauthor : author.Canonical) (hconsistent : Consistent author f)
    (hr : r < 2 ^ 64) (hc : Context.authoredIn E f author r now = .ok c) (htime : E.chrono.Keeps c.timeMs)
    (hencode : encode E c f = .ok bytes) (hlen : bytes.length ≤ maxFrame) :
    decode { E with current := current } bytes = .ok (.ok ⟨some c, f.asRead⟩) ∧
    ∀ pairs data name old value, message.decode bytes = some (pairs, data) → pairs.lookup name = some old → value ≠ old →
      Determined f c.source name value →
        ∃ e, decode { E with current := current } (message.enc (replaced name value pairs, data)) = .ok (.error e) := by
  have hdecode := decode_encode current hlive htyped hfits hauthor hconsistent hr hc htime hencode hlen
  refine ⟨hdecode, ?_⟩
  intro pairs data name old value hmessage hold hne hdetermined
  obtain ⟨-, pairs₀, data₀, h, hmessage₀, hd, hevent⟩ := decode_eq_ok_iff.mp hdecode
  rw [hmessage] at hmessage₀
  cases hmessage₀
  have hcount : pairs.length < 2 ^ 64 := by
    obtain ⟨sent, attributes, -, hattributes, rfl⟩ := encode_eq_ok_iff.mp hencode
    rw [decode_message (attributes_length hattributes) hlen (by decide)] at hmessage
    cases hmessage
    exact attributes_length hattributes
  have hsource : h.source = c.source := source_of_decodeEvent hevent
  obtain ⟨publication, hs⟩ := selected_of_decodeEvent hevent
  obtain ⟨r, hr⟩ := decode_returns { E with current := current } (message.enc (replaced name value pairs, data))
  cases r with
  | error e => exact ⟨e, hr⟩
  | ok carried =>
    obtain ⟨hlen', pairs', data', h', hmessage', hd', hevent'⟩ := decode_eq_ok_iff.mp hr
    rw [decode_message (lt_of_eq_of_lt length_replaced hcount) hlen' (by decide)] at hmessage'
    cases hmessage'
    obtain ⟨publication', hs'⟩ := selected_of_decodeEvent hevent'
    have hdetermined' : Determined f.asRead h.source name value := by
      rw [hsource]
      exact determined_asRead.mpr hdetermined
    exact absurd (value_eq_of_selected hd hs hd' hs' hold hdetermined') hne

end RoundTrip

def sampleAuthor : Birth := ⟨"1123456789ab", "0123456789ab", "yrz49j303yh4"⟩

/-- A ready member, told apart by its ids and its count of digests. -/
def sampleDigest (nodeId incarnation : String) (digestSeq : Nat) : MeshDigest where
  fabricId := "1123456789ab"
  node := ⟨"m", "node", nodeId, "p", "a", "e", "10.0.0.1:7000", incarnation, none, none⟩
  status := .ready
  adminApiBase := none
  digestSeq := digestSeq
  emittedAtRafkaMs := 0
  dataDir := none
  meshId := none
  inFlight := none
  load := none
  gossip := none
  isPrimary := none
  isFabricPrimary := none

/-- A member's removal, told apart by its action and its ids. -/
def sampleOp (action nodeId incarnation : String) (traceparent : Option String) : LifecycleOp where
  type := "node"
  buildId := "b"
  operation := .mk action (some (.node nodeId)) none none
  nodeId := nodeId
  incarnation := incarnation
  path := "p"
  name := "a"
  mesh := "m"
  eventAtRafkaMs := 0
  traceparent := traceparent
  tracestate := none

/-- A codec of these digests and operations, that leaves an operation's trace out. -/
def sampleEnv : Env :=
  { plainEnv with
    postcard :=
      { digest := (text.pair (text.pair u64)).map (fun d => (d.node.nodeId, d.node.incarnation, d.digestSeq))
          fun p => sampleDigest p.1 p.2.1 p.2.2
        lifecycleOp := (text.pair (text.pair text)).map (fun o => (o.operation.action, o.nodeId, o.incarnation))
          fun p => sampleOp p.1 p.2.1 p.2.2 none
        reserved := plainEnv.postcard.reserved } }

/-- The second of two chunks of a mesh's seventh publication: two members, of which one is removed, and one that is gone. -/
def sampleFull : Frame :=
  .topologyFull "m" ⟨"yrz49j303yh4", "0123456789ab"⟩ none 3 1 7 1 2
    [sampleDigest "0123456789ab" "yrz49j303yh4" 9, sampleDigest "0123456789ac" "yrz49j303yh5" 4]
    [sampleOp "node.delete" "0123456789ac" "yrz49j303yh5" (some "00-1-2-01")]
    [sampleOp "node.delete" "0123456789ad" "yrz49j303yh6" (some "00-1-3-01")]

theorem sampleEnv_digest (nodeId incarnation : String) {digestSeq : Nat} (h : digestSeq < 2 ^ 64) :
    sampleEnv.postcard.digest.ReadsAs (sampleDigest nodeId incarnation digestSeq) (sampleDigest nodeId incarnation digestSeq) := by
  have hpair := Format.readsAs_pair (readsAs_text nodeId) (Format.readsAs_pair (readsAs_text incarnation) (readsAs_u64 h))
  exact @Format.readsAs_map _ _ _ (fun d : MeshDigest => (d.node.nodeId, d.node.incarnation, d.digestSeq))
    (fun p => sampleDigest p.1 p.2.1 p.2.2) (sampleDigest nodeId incarnation digestSeq) _ hpair

theorem sampleEnv_op (action nodeId incarnation : String) (traceparent : Option String) :
    sampleEnv.postcard.lifecycleOp.ReadsAs (sampleOp action nodeId incarnation traceparent)
      (sampleOp action nodeId incarnation traceparent).untraced := by
  have hpair := Format.readsAs_pair (readsAs_text action) (Format.readsAs_pair (readsAs_text nodeId) (readsAs_text incarnation))
  exact @Format.readsAs_map _ _ _ (fun o : LifecycleOp => (o.operation.action, o.nodeId, o.incarnation))
    (fun p => sampleOp p.1 p.2.1 p.2.2 none) (sampleOp action nodeId incarnation traceparent) _ hpair

def sampleContext : Context := Context.authored sampleFull sampleAuthor 2 1 ⟨none, none⟩

def sampleBytes : Bytes :=
  match encode sampleEnv sampleContext sampleFull with
  | .ok bytes => bytes
  | .error _ => []

theorem envelope_round_trip_full :
    decode sampleEnv sampleBytes = .ok (.ok ⟨some sampleContext, sampleFull.asRead⟩) ∧ sampleBytes.length ≤ maxFrame := by
  have hlen : sampleBytes.length ≤ maxFrame := by decide +kernel
  have hencode : encode sampleEnv sampleContext sampleFull = .ok sampleBytes := by decide +kernel
  have hauthor : sampleAuthor.Canonical := ⟨by decide, by decide, by decide⟩
  have hdigests : sampleEnv.postcard.ReadsDigests
      [sampleDigest "0123456789ab" "yrz49j303yh4" 9, sampleDigest "0123456789ac" "yrz49j303yh5" 4] := by
    refine ⟨by decide, ?_⟩
    intro d hd
    simp only [List.mem_cons, List.not_mem_nil, or_false] at hd
    rcases hd with rfl | rfl
    · exact sampleEnv_digest _ _ (by decide)
    · exact sampleEnv_digest _ _ (by decide)
  have hops : ∀ nodeId incarnation traceparent,
      sampleEnv.postcard.ReadsOps [sampleOp "node.delete" nodeId incarnation traceparent] := by
    intro nodeId incarnation traceparent
    refine ⟨by simp, ?_⟩
    intro op hop
    rw [List.mem_singleton.mp hop]
    exact sampleEnv_op _ _ _ _
  have htyped : sampleEnv.postcard.Typed sampleFull :=
    ⟨⟨by decide, by decide⟩, by decide, by decide, by decide, by decide, by decide, hdigests, hops _ _ _, hops _ _ _⟩
  have htime : firstMs.Keeps 1 := by
    intro text htext
    cases htext
    decide
  have hc := authoredIn_eq sampleEnv sampleFull sampleAuthor 2 1
  have hround := envelope_round_trip sampleEnv.current (by decide) htyped (by decide +kernel) hauthor trivial (by decide) hc
    htime hencode hlen
  exact ⟨hround.1, hlen⟩

end DistributedMesh.Gossip
