import DistributedMesh.EnvelopeReceipt
import DistributedMesh.EnvelopeTexts
import DistributedMesh.TopologyDelta

namespace DistributedMesh

open Framing (Bytes canonical)
open ByteFormats

structure PublisherId.Canonical (p : PublisherId) : Prop where
  incarnation : canonical p.incarnation = true
  nodeId : canonical p.nodeId = true

namespace Gossip

/-- The frame as its data are read: an operation's trace is not written with it. -/
def Frame.asRead : Frame → Frame
  | .topologyFull mesh publisher forwardedBy version publishedAt snapshotId chunkIndex chunkCount digests inFlight gone =>
    .topologyFull mesh publisher forwardedBy version publishedAt snapshotId chunkIndex chunkCount digests
      (inFlight.map LifecycleOp.untraced) (gone.map LifecycleOp.untraced)
  | .topologyDelta mesh publisher base version publishedAt changed removed inFlight gone =>
    .topologyDelta mesh publisher base version publishedAt changed removed (inFlight.map LifecycleOp.untraced)
      (gone.map LifecycleOp.untraced)
  | .nodeDeleting op forwardedBy publisher version => .nodeDeleting op.untraced forwardedBy publisher version
  | .nodeDeleted op forwardedBy => .nodeDeleted op.untraced forwardedBy
  | .nodeStopped op forwardedBy publisher version => .nodeStopped op.untraced forwardedBy publisher version
  | frame => frame

namespace Postcard

variable (D : Postcard)

/-- The codec reads these operations back, without their traces. -/
def ReadsOps (ops : List LifecycleOp) : Prop :=
  ops.length < 2 ^ 64 ∧ ∀ op ∈ ops, D.lifecycleOp.ReadsAs op op.untraced

def ReadsDigests (digests : List MeshDigest) : Prop :=
  digests.length < 2 ^ 64 ∧ ∀ d ∈ digests, D.digest.ReadsAs d d

/-- An operation the codec reads back, of minted ids. -/
def ReadsOp (op : LifecycleOp) : Prop :=
  D.lifecycleOp.ReadsAs op op.untraced ∧ canonical op.nodeId = true ∧ canonical op.incarnation = true

/-- A value of the frame's type: its counters of their width, its ids minted ones, its digests and operations such that
the codec reads them back. -/
def Typed : Frame → Prop
  | .digest d => D.digest.ReadsAs d d ∧ Birth.Canonical ⟨d.fabricId, d.node.nodeId, d.node.incarnation⟩ ∧
    d.digestSeq < 2 ^ 64
  | .topologyFull _ publisher _ version publishedAt snapshotId chunkIndex chunkCount digests inFlight gone =>
    publisher.Canonical ∧ version < 2 ^ 64 ∧ publishedAt < 2 ^ 64 ∧ snapshotId < 2 ^ 64 ∧ chunkIndex < 2 ^ 32 ∧
      chunkCount < 2 ^ 32 ∧ D.ReadsDigests digests ∧ D.ReadsOps inFlight ∧ D.ReadsOps gone
  | .topologyDelta _ publisher base version publishedAt changed removed inFlight gone =>
    publisher.Canonical ∧ base < 2 ^ 64 ∧ version < 2 ^ 64 ∧ publishedAt < 2 ^ 64 ∧ D.ReadsDigests changed ∧
      removed.length < 2 ^ 64 ∧ D.ReadsOps inFlight ∧ D.ReadsOps gone
  | .nodeDeleting op _ publisher version | .nodeStopped op _ publisher version =>
    D.ReadsOp op ∧ publisher.Canonical ∧ version < 2 ^ 64
  | .nodeDeleted op _ => D.ReadsOp op
  | .meshStatus _ _ _ _ changedAt => changedAt < 2 ^ 64
  | .fabricStatus fabric _ _ _ changedAt => canonical fabric = true ∧ changedAt < 2 ^ 64
  | _ => True

end Postcard

section Reading

variable {D : Postcard} {f : Frame} {rest : Bytes}

theorem readsAs_text (s : String) : text.ReadsAs s s := Format.readsAs_format _ s

theorem readsAs_textOption (s : Option String) : text.option.ReadsAs s s := by
  apply Format.readsAs_option
  cases s with
  | none => exact .none
  | some s => exact .some (readsAs_text s)

theorem readsAs_u64 {n : Nat} (h : n < 2 ^ 64) : u64.ReadsAs n n := Format.readsAs_number (by decide) (by omega)

theorem readsAs_u32 {n : Nat} (h : n < 2 ^ 32) : u32.ReadsAs n n := Format.readsAs_number (by decide) (by omega)

theorem readsAs_minted {s : String} (h : canonical s = true) : minted.ReadsAs s s :=
  Format.readsAs_only (readsAs_text s) h

theorem readsAs_publisher {p : PublisherId} (h : p.Canonical) : publisherFormat.ReadsAs p p := by
  have hpair := Format.readsAs_pair (readsAs_minted h.incarnation) (readsAs_minted h.nodeId)
  exact @Format.readsAs_map _ _ _ (fun p => (p.incarnation, p.nodeId)) (fun p => ⟨p.1, p.2⟩) p _ hpair

theorem readsAs_owner {b : Birth} (h : b.Canonical) {n : Nat} (hn : n < 2 ^ 64) :
    ownerFormat.ReadsAs (b.fabric, b.node, b.incarnation, n) (b.fabric, b.node, b.incarnation, n) :=
  Format.readsAs_pair (readsAs_minted h.fabric) (Format.readsAs_pair (readsAs_minted h.node)
    (Format.readsAs_pair (readsAs_minted h.incarnation) (readsAs_u64 hn)))

theorem readsAs_same {α : Type} {w : Format α} {l : List α} (hlen : l.length < 2 ^ 64) (h : ∀ a ∈ l, w.ReadsAs a a) :
    w.list.ReadsAs l l := Format.readsAs_list (List.forall₂_same.mpr h) hlen

theorem Postcard.ReadsOps.readsAs {ops : List LifecycleOp} (h : D.ReadsOps ops) :
    D.lifecycleOp.list.ReadsAs ops (ops.map LifecycleOp.untraced) := by
  refine Format.readsAs_list ?_ h.1
  rw [List.forall₂_map_right_iff, List.forall₂_same]
  exact h.2

theorem Postcard.ReadsDigests.readsAs {digests : List MeshDigest} (h : D.ReadsDigests digests) :
    D.digest.list.ReadsAs digests digests := readsAs_same h.1 h.2

theorem readsAs_fullHead {publisher : PublisherId} (h : publisher.Canonical) {version publishedAt : Nat}
    (hv : version < 2 ^ 64) (hp : publishedAt < 2 ^ 64) (mesh : String) (forwardedBy : Option String) :
    fullHead.ReadsAs (mesh, publisher, forwardedBy, version, publishedAt)
      (mesh, publisher, forwardedBy, version, publishedAt) :=
  Format.readsAs_pair (readsAs_text mesh) (Format.readsAs_pair (readsAs_publisher h)
    (Format.readsAs_pair (readsAs_textOption forwardedBy) (Format.readsAs_pair (readsAs_u64 hv) (readsAs_u64 hp))))

theorem readsAs_fact {op : LifecycleOp} (hop : D.ReadsOp op) {publisher : PublisherId} (hp : publisher.Canonical)
    {version : Nat} (hv : version < 2 ^ 64) (forwardedBy : Option String) :
    D.fact.ReadsAs (op, forwardedBy, publisher, version) (op.untraced, forwardedBy, publisher, version) :=
  Format.readsAs_pair hop.1 (Format.readsAs_pair (readsAs_textOption forwardedBy)
    (Format.readsAs_pair (readsAs_publisher hp) (readsAs_u64 hv)))

theorem readsAs_status {name : Format String} {subject : String} (hname : name.ReadsAs subject subject) {changedAt : Nat}
    (h : changedAt < 2 ^ 64) (status publisher : String) (forwardedBy : Option String) :
    (statusFormat name).ReadsAs (subject, status, publisher, forwardedBy, changedAt)
      (subject, status, publisher, forwardedBy, changedAt) :=
  Format.readsAs_pair hname (Format.readsAs_pair (readsAs_text status) (Format.readsAs_pair (readsAs_text publisher)
    (Format.readsAs_pair (readsAs_textOption forwardedBy) (readsAs_u64 h))))

/-- A typed frame's fields read back as the frame, under its index. -/
theorem takeFields_fields (hlive : isReserved f.kindIndex = false) (h : D.Typed f)
    (hlen : (D.fields f).length < 2 ^ 64) : D.takeFields f.kindIndex (D.fields f ++ rest) = some (f.asRead, rest) := by
  cases f with
  | digest d =>
    simp only [Postcard.fields, Postcard.takeFields, Frame.kindIndex] at hlen ⊢
    rw [h.1 rest hlen]
    rfl
  | topologyFull mesh publisher forwardedBy version publishedAt snapshotId chunkIndex chunkCount digests inFlight gone =>
    obtain ⟨hp, hv, ha, hs, hi, hc, hd, ho, hg⟩ := h
    have hread : D.full.ReadsAs _ _ := Format.readsAs_pair (readsAs_fullHead hp hv ha mesh forwardedBy)
      (Format.readsAs_pair (readsAs_u64 hs) (Format.readsAs_pair (readsAs_u32 hi) (Format.readsAs_pair (readsAs_u32 hc)
        (Format.readsAs_pair hd.readsAs (Format.readsAs_pair ho.readsAs hg.readsAs)))))
    simp only [Postcard.fields, Postcard.takeFields, Frame.kindIndex] at hlen ⊢
    rw [hread rest hlen]
    rfl
  | topologyDelta mesh publisher base version publishedAt changed removed inFlight gone =>
    obtain ⟨hp, hb, hv, ha, hd, hr, ho, hg⟩ := h
    have hread : D.delta.ReadsAs _ _ := Format.readsAs_pair (readsAs_text mesh) (Format.readsAs_pair (readsAs_publisher hp)
      (Format.readsAs_pair (readsAs_u64 hb) (Format.readsAs_pair (readsAs_u64 hv) (Format.readsAs_pair (readsAs_u64 ha)
        (Format.readsAs_pair hd.readsAs (Format.readsAs_pair (readsAs_same hr fun s _ => readsAs_text s)
          (Format.readsAs_pair ho.readsAs hg.readsAs)))))))
    simp only [Postcard.fields, Postcard.takeFields, Frame.kindIndex] at hlen ⊢
    rw [hread rest hlen]
    rfl
  | nodeDeleting op forwardedBy publisher version =>
    simp only [Postcard.fields, Postcard.takeFields, Frame.kindIndex] at hlen ⊢
    rw [readsAs_fact h.1 h.2.1 h.2.2 forwardedBy rest hlen]
    rfl
  | nodeStopped op forwardedBy publisher version =>
    simp only [Postcard.fields, Postcard.takeFields, Frame.kindIndex] at hlen ⊢
    rw [readsAs_fact h.1 h.2.1 h.2.2 forwardedBy rest hlen]
    rfl
  | nodeDeleted op forwardedBy =>
    have hread : D.deleted.ReadsAs _ _ := Format.readsAs_pair h.1 (readsAs_textOption forwardedBy)
    simp only [Postcard.fields, Postcard.takeFields, Frame.kindIndex] at hlen ⊢
    rw [hread rest hlen]
    rfl
  | meshStatus mesh status publisher forwardedBy changedAt =>
    simp only [Postcard.fields, Postcard.takeFields, Frame.kindIndex] at hlen ⊢
    rw [readsAs_status (readsAs_text mesh) h status publisher forwardedBy rest hlen]
    rfl
  | fabricStatus fabric status publisher forwardedBy changedAt =>
    simp only [Postcard.fields, Postcard.takeFields, Frame.kindIndex] at hlen ⊢
    rw [readsAs_status (readsAs_minted h.1) h.2 status publisher forwardedBy rest hlen]
    rfl
  | nodeRestarting | concern | nodeConnectionsDeleting | nodeLeaving | nodeLeft | nodeConnectionsDeleted
  | newFabricPrimary | reserved15 | reserved16 | reserved17 | reserved18 => cases hlive

theorem take_tag {index : Nat} (hlt : index < 19) (data : Bytes) :
    u32.take (UInt8.ofNat index :: data) = some (index, data) := by
  have hread := @readsAs_u32 index (by omega) data
  rw [enc_tag (by omega)] at hread
  exact hread (by simp)

theorem decodeFrame_fields (hlive : isReserved f.kindIndex = false) (h : D.Typed f)
    (hlen : (D.fields f).length < 2 ^ 64) : decodeFrame D f.kindIndex (D.fields f) = .ok f.asRead := by
  have hfields := @takeFields_fields D f [] hlive h hlen
  rw [List.append_nil] at hfields
  have htake : D.frame.take (UInt8.ofNat f.kindIndex :: D.fields f) = some (f.asRead, []) := by
    show (u32.take _).bind _ = _
    rw [take_tag f.kindIndex_lt]
    exact hfields
  unfold decodeFrame Format.decode
  rw [htake]

theorem kindIndex_of_takeFields {index : Nat} {data : Bytes} (hlt : index < 19) (hlive : isReserved index = false)
    (h : D.takeFields index data = some (f, rest)) : f.kindIndex = index := by
  interval_cases index <;> first
    | exact absurd hlive (by decide)
    | obtain ⟨p, -, hp⟩ := Option.map_eq_some_iff.mp h
      cases hp
      rfl

theorem kindIndex_of_decodeFrame {index : Nat} {data : Bytes} (hlt : index < 19) (hlive : isReserved index = false)
    (h : decodeFrame D index data = .ok f) : f.kindIndex = index := by
  unfold decodeFrame at h
  split at h
  next => cases h
  next frame hdecode =>
    cases h
    unfold Format.decode at hdecode
    split at hdecode
    next a htake =>
      cases hdecode
      obtain ⟨p, hp, htake⟩ := Option.bind_eq_some_iff.mp htake
      rw [take_tag hlt] at hp
      cases hp
      exact kindIndex_of_takeFields hlt hlive htake
    next => cases hdecode

/-- A whole topology's fields, sent with their publication's owner before its counter, are read as the fields and the
publication. -/
theorem publicationOf_full {head : String × PublisherId × Option String × Nat × Nat} {owner : Birth} {counter : Nat}
    {tail : Bytes} (hhead : fullHead.ReadsAs head head) (howner : owner.Canonical) (hcounter : counter < 2 ^ 64)
    (hlen : (fullHead.enc head ++
      ownerFormat.enc (owner.fabric, owner.node, owner.incarnation, counter) ++ tail).length < 2 ^ 64) :
    publicationOf 1 (fullHead.enc head ++ ownerFormat.enc (owner.fabric, owner.node, owner.incarnation, counter) ++ tail) =
      .ok (.ok (fullHead.enc head ++ (u64.enc counter ++ tail), some (owner, counter))) := by
  rw [List.append_assoc] at hlen ⊢
  rw [List.length_append, List.length_append] at hlen
  unfold publicationOf takePublication
  rw [if_pos rfl, hhead _ (by omega)]
  dsimp only
  rw [if_neg (by rw [List.length_append]; omega), readsAs_owner howner hcounter _ (by omega)]
  dsimp only
  rw [if_neg (by omega), List.length_append, Nat.add_sub_cancel, List.take_left, List.append_assoc]

theorem topologyFullPrefix_enc {head : String × PublisherId × Option String × Nat × Nat} {counter : Nat} {tail : Bytes}
    (hhead : fullHead.ReadsAs head head) (hcounter : counter < 2 ^ 64)
    (hlen : (fullHead.enc head ++ (u64.enc counter ++ tail)).length < 2 ^ 64) :
    topologyFullPrefix (fullHead.enc head ++ (u64.enc counter ++ tail)) =
      .ok (fullHead.enc head, (fullHead.enc head ++ u64.enc counter).length) := by
  rw [List.length_append, List.length_append] at hlen
  unfold topologyFullPrefix
  rw [hhead _ (by omega)]
  dsimp only
  rw [readsAs_u64 hcounter _ (by omega)]
  dsimp only
  rw [List.length_append, Nat.add_sub_cancel, List.take_left]
  congr 2
  simp only [List.length_append]
  omega

variable {c : Context} {author : Birth} {r now : Nat} {data : Bytes}

theorem body_eq_fields (h : f.kindIndex ≠ 1) : body D c f = .ok (D.fields f) := by
  unfold body
  rw [enc_frame]
  cases f <;> first | rfl | exact absurd rfl h

theorem publication_eq_none (h : f.kindIndex ≠ 1) : (derivedOf author r now f).publication = none := by
  cases f <;> first | rfl | exact absurd rfl h

/-- The data a frame is sent as are its fields again, beside the publication of its context. -/
theorem publicationOf_body (htyped : D.Typed f) (hauthor : author.Canonical)
    (hpublication : c.publication = (derivedOf author r now f).publication) (hfits : (D.fields f).length < 2 ^ 64)
    (hbody : body D c f = .ok data) (hlen : data.length < 2 ^ 64) :
    publicationOf f.kindIndex data = .ok (.ok (D.fields f, c.publication)) := by
  by_cases hkind : f.kindIndex = 1
  · cases f with
    | topologyFull mesh publisher forwardedBy version publishedAt snapshotId chunkIndex chunkCount digests inFlight gone =>
      obtain ⟨hp, hv, ha, hs, -⟩ := htyped
      have hhead := readsAs_fullHead hp hv ha mesh forwardedBy
      let tail := D.fullTail.enc (chunkIndex, chunkCount, digests, inFlight, gone)
      have hsplit := @topologyFullPrefix_enc _ snapshotId tail hhead hs hfits
      have hrest : (D.fields (.topologyFull mesh publisher forwardedBy version publishedAt snapshotId chunkIndex chunkCount
          digests inFlight gone)).drop
            (fullHead.enc (mesh, publisher, forwardedBy, version, publishedAt) ++ u64.enc snapshotId).length = tail := by
        show (fullHead.enc _ ++ (u64.enc snapshotId ++ tail)).drop _ = _
        rw [← List.append_assoc, List.drop_left]
      unfold body at hbody
      rw [enc_frame, hpublication] at hbody
      obtain ⟨q, hq, hbody⟩ := bind_eq_ok_iff.mp hbody
      obtain rfl : _ = q := Except.ok.inj (hsplit.symm.trans hq)
      rw [hpublication]
      cases hbody
      simp only [List.drop_succ_cons, List.drop_zero, hrest] at hlen ⊢
      exact publicationOf_full hhead hauthor hs hlen
    | _ => cases hkind
  · rw [body_eq_fields hkind] at hbody
    cases hbody
    rw [hpublication, publication_eq_none hkind]
    unfold publicationOf
    rw [if_neg hkind]

end Reading

end Gossip

end DistributedMesh
