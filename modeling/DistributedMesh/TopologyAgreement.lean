import DistributedMesh.TopologyForwarder

namespace DistributedMesh

open Std (ExtTreeMap)
open KeyedMaps

theorem chunksMeasured_map {T U : Type} (full : Full) (shape : Parts → UInt32 → UInt32 → T) (f : T → U)
    (encode : U → Bytes) : chunksMeasured full (fun parts i n => f (shape parts i n)) encode =
      (chunksMeasured full shape fun t => encode (f t)).map f := by
  refine List.ext_getElem? fun k => ?_
  rw [List.getElem?_map, chunksMeasured_get, chunksMeasured_get, Option.map_map]
  rfl

/-- What a forwarder publishes of an offer. -/
def Offer.published (o : Offer) : Published := ⟨o.publisher, o.version, o.full.withoutLoads⟩

/-- Offers of one publisher's version are of one topology. -/
def Numbered (os : List Offer) : Prop :=
  ∀ a ∈ os, ∀ b ∈ os, a.mesh = b.mesh → a.publisher = b.publisher → a.version = b.version →
    a.full.sameTopology b.full = true

namespace Forwarder

/-- Every item of the full fits a frame on its own, and its chunks can be counted. -/
structure Sendable (encode : Frame → Bytes) (fw : Forwarder) (me mesh : String) (p : Published)
    (now : Nat) : Prop where
  items : ∀ item ∈ p.full.items,
    (encode (fw.fullShape me mesh p now (split [item]) 0xffffffff 0xffffffff)).length ≤ maxFrame
  few : (runsOf p.full (fw.fullShape me mesh p now) encode).length < UInt32.size

/-- A full of this publisher does not go back behind what is published. -/
def Follows (fw : Forwarder) (mesh : String) (p : Published) : Prop :=
  ∀ basis, fw.published[mesh]? = some basis → basis.publisher = p.publisher →
    basis.version ≤ p.version ∧ (basis.version = p.version → basis.full.sameTopology p.full = true)

/-- What is published is what was offered. -/
def Known (os : List Offer) (fw : Forwarder) : Prop :=
  ∀ (mesh : String) (p : Published), fw.published[mesh]? = some p → ∃ o ∈ os, o.mesh = mesh ∧
    o.publisher = p.publisher ∧ o.version = p.version ∧ o.full.sameTopology p.full = true

/-- The held source is what was published. -/
structure Matches (p : Published) (h : Held) : Prop where
  publisher : h.publisher = p.publisher
  version : h.version = p.version
  full : h.full.sameTopology p.full = true
  desynced : h.desynced = none

/-- A forwarder and a receiver that took every one of its frames. -/
structure Agreed (fw : Forwarder) (rx : SnapshotReceiver) : Prop where
  pending : ∀ k : SourceKey, rx.pending[k]? = none
  dropped : ∀ mesh : String, rx.dropped[mesh]? = none
  snapshots : ∀ (mesh : String) (h : Held) (p : PendingSnapshot), rx.held[mesh]? = some h →
    h.publication = some p → p.snapshotId ≤ fw.snapshots
  meshes : ∀ mesh : String, mesh ≠ fw.ownMesh → Option.Rel Matches fw.published[mesh]? rx.held[mesh]?

/-- What a call puts on the channel leaves the two agreed. -/
structure Delivers (os : List Offer) (rx : SnapshotReceiver) (out : Forwarder × List Frame) : Prop where
  agreed : Agreed out.1 (rx.takeFrames out.2)
  known : Known os out.1
  consistent : ∀ a ∈ rx.frameAnswers out.2, a.Consistent

section Sends

variable {encode : Frame → Bytes} {fw : Forwarder} {rx : SnapshotReceiver} {me mesh : String}
  {p : Published} {now : Nat} {os : List Offer}

/-- A full as its frames carry it. -/
def Sendable.publication (h : Sendable encode fw me mesh p now) : Publication :=
  { fw.header me mesh p with
    full := p.full
    encode := fun c => encode (.topologyFull fw.author now c)
    complete := by
      refine Chunking.packInOrder_refused fun item hitem => ?_
      have hfit := h.items item hitem
      exact ⟨_, if_neg (Nat.not_lt.mpr hfit)⟩
    few := h.few }

theorem Sendable.frames (h : Sendable encode fw me mesh p now) :
    chunksMeasured p.full (fw.fullShape me mesh p now) encode =
      h.publication.chunks.map (.topologyFull fw.author now) :=
  chunksMeasured_map p.full (fw.header me mesh p).shape (.topologyFull fw.author now) encode

theorem Agreed.heldBy (h : Agreed fw rx) (hown : mesh ≠ fw.ownMesh) {k : Held}
    {publisher : PublisherId} (hk : rx.heldBy mesh publisher = some k) :
    ∃ basis, fw.published[mesh]? = some basis ∧ basis.publisher = publisher ∧ Matches basis k := by
  obtain ⟨hk, hp⟩ := (SnapshotReceiver.heldBy_eq_some _ _ _ _).mp hk
  have hrel := h.meshes mesh hown
  rw [hk] at hrel
  cases hb : fw.published[mesh]? with
  | none =>
    rw [hb] at hrel
    cases hrel
  | some basis =>
    rw [hb] at hrel
    cases hrel with
    | some hm => exact ⟨basis, rfl, hm.publisher.symm.trans hp, hm⟩

theorem Agreed.admits (h : Agreed fw rx) (hown : mesh ≠ fw.ownMesh) (hf : fw.Follows mesh p)
    (hs : Sendable encode fw me mesh p now) : Admits hs.publication rx := by
  refine ⟨fun c hc => ?_, fun c hc => ?_⟩
  · obtain ⟨hmesh, hpublisher, hversion, hsnapshot, _⟩ := Publication.mem_header hc
    have hmesh : c.mesh = mesh := hmesh
    have hversion : c.topologyVersion = p.version := hversion
    have hsnapshot : c.snapshotId = fw.snapshots + 1 := hsnapshot
    unfold SnapshotReceiver.againstHeld
    cases hk : rx.heldBy c.mesh c.publisher with
    | none => rfl
    | some k =>
      have hheld := ((SnapshotReceiver.heldBy_eq_some _ _ _ _).mp hk).1
      rw [hmesh] at hk
      obtain ⟨basis, hb, hbp, hm⟩ := h.heldBy hown hk
      have hle := (hf basis hb (hbp.trans hpublisher)).1
      have hnot : ¬ c.topologyVersion < k.version := by
        rw [hversion, hm.version]
        omega
      have hother : k.publication.filter (fun q => q.snapshotId = c.snapshotId ∧ q.owner = hs.publication.owner)
          = none := by
        rw [Option.filter_eq_none_iff]
        intro q hq
        have hle := h.snapshots _ k q hheld hq
        simp only [decide_eq_true_eq, not_and]
        omega
      simp only [Option.bind_eq_bind, Option.bind_some, if_neg hnot, hother, Option.bind_none, ite_self]
  · obtain ⟨hmesh, hpublisher, hversion, _⟩ := Publication.mem_header hc
    have hmesh : c.mesh = mesh := hmesh
    have hversion : c.topologyVersion = p.version := hversion
    have hsame : ¬ ((rx.heldBy c.mesh c.publisher).any fun k =>
        k.version == c.topologyVersion && !k.full.sameTopology p.full) = true := by
      rw [Option.any_eq_true]
      rintro ⟨k, hk, hany⟩
      rw [hmesh] at hk
      obtain ⟨basis, hb, hbp, hm⟩ := h.heldBy hown hk
      have hv : basis.version = p.version := by
        rw [Bool.and_eq_true, beq_iff_eq] at hany
        rw [← hm.version, hany.1, hversion]
      have hfull := Full.sameTopology_trans hm.full ((hf basis hb (hbp.trans hpublisher)).2 hv)
      simp [hfull] at hany
    exact if_neg hsame

/-- A full that follows what is published is taken whole. -/
theorem Agreed.sendFull (h : Agreed fw rx) (hown : mesh ≠ fw.ownMesh) (hf : fw.Follows mesh p)
    (hs : Sendable encode fw me mesh p now) :
    Agreed (fw.sendFull encode me mesh p now).1 (rx.takeFrames (fw.sendFull encode me mesh p now).2) ∧
      ∀ a ∈ rx.frameAnswers (fw.sendFull encode me mesh p now).2, a.Consistent := by
  have hframes : (fw.sendFull encode me mesh p now).2 =
      hs.publication.chunks.map (.topologyFull fw.author now) := hs.frames
  have hadmits := h.admits hown hf hs
  obtain ⟨hin, hans⟩ := Publication.taken now rfl hadmits (h.pending _)
  rw [hframes]
  refine ⟨⟨fun k => ?_, fun m => hin.dropped m (h.dropped m), fun m k q hk hq => ?_, fun m hm => ?_⟩, hans⟩
  · cases hk : (rx.takeFrames (hs.publication.chunks.map (.topologyFull fw.author now))).pending[k]? with
    | none => rfl
    | some q =>
      have hq := hin.pending k q hk
      rw [h.pending] at hq
      simp at hq
  · obtain ⟨x, hx, _, _, _, _, r, hr, hid⟩ := hin.held
    rw [hx, getElem?_insert_eq] at hk
    split at hk
    next =>
      cases hk
      rw [hr] at hq
      cases hq
      rw [hid]
      exact Nat.le_refl _
    next => exact Nat.le_succ_of_le (h.snapshots m k q hk hq)
  · obtain ⟨x, hx, hpub, hver, hfull, hsync, _⟩ := hin.held
    have hx : (rx.takeFrames (hs.publication.chunks.map (.topologyFull fw.author now))).held =
        rx.held.insert mesh x := hx
    have hpublished : (fw.sendFull encode me mesh p now).1.published = fw.published.insert mesh p := rfl
    rw [hx, hpublished, getElem?_insert_eq, getElem?_insert_eq]
    by_cases he : mesh = m
    · rw [if_pos he, if_pos he]
      refine .some ⟨hpub, hver, ?_, hsync (h.dropped _)⟩
      rw [hfull]
      exact Full.sameTopology_refl _
    · rw [if_neg he, if_neg he]
      exact h.meshes m hm

theorem Known.publish (h : Known os fw) {o : Offer} {version : Nat}
    (hv : ∃ x ∈ os, x.mesh = o.mesh ∧ x.publisher = o.publisher ∧ x.version = version ∧
      x.full.sameTopology o.full = true) :
    Known os (fw.publish o.mesh ⟨o.publisher, version, o.full.withoutLoads⟩) := by
  intro mesh p hp
  rw [Forwarder.publish, getElem?_insert_eq] at hp
  split at hp
  next he =>
    cases hp
    obtain ⟨x, hx, hm, hpub, hver, hsame⟩ := hv
    refine ⟨x, hx, hm.trans he, hpub, hver, Full.sameTopology_trans hsame ?_⟩
    exact Full.sameTopology_symm o.full.withoutLoads_sameTopology
  next => exact h mesh p hp

theorem Known.offered (h : Known os fw) {o : Offer} (ho : o ∈ os) :
    Known os (fw.publish o.mesh o.published) :=
  h.publish ⟨o, ho, rfl, rfl, rfl, o.full.sameTopology_refl⟩

theorem Known.follows (h : Known os fw) (hn : Numbered os) {o : Offer} (ho : o ∈ os)
    (hle : ∀ basis, fw.published[o.mesh]? = some basis → basis.publisher = o.publisher →
      basis.version ≤ o.version) : fw.Follows o.mesh o.published := by
  intro basis hb hpub
  refine ⟨hle basis hb hpub, fun hv => ?_⟩
  obtain ⟨x, hx, hm, hp, hver, hsame⟩ := h o.mesh basis hb
  have hxo := hn x hx o ho hm (hp.trans hpub) (hver.trans hv)
  have hstrip := Full.sameTopology_symm o.full.withoutLoads_sameTopology
  exact Full.sameTopology_trans (Full.sameTopology_symm hsame) (Full.sameTopology_trans hxo hstrip)

/-- The forwarder's own mesh is published and not put on the channel. -/
theorem Agreed.publishOwn (h : Agreed fw rx) (p : Published) : Agreed (fw.publish fw.ownMesh p) rx := by
  refine ⟨h.pending, h.dropped, h.snapshots, fun m hm => ?_⟩
  have hm : m ≠ fw.ownMesh := hm
  rw [Forwarder.publish, getElem?_insert_eq, if_neg (Ne.symm hm)]
  exact h.meshes m hm

/-- The published full moves, and what the receiver holds is already the same. -/
theorem Agreed.advance (h : Agreed fw rx) {basis : Published} (hb : fw.published[mesh]? = some basis)
    {full : Full} (hsame : basis.full.sameTopology full = true) :
    Agreed (fw.publish mesh ⟨basis.publisher, basis.version, full⟩) rx := by
  refine ⟨h.pending, h.dropped, h.snapshots, fun m hm => ?_⟩
  rw [Forwarder.publish, getElem?_insert_eq]
  by_cases he : mesh = m
  · subst he
    have hrel := h.meshes mesh hm
    rw [hb] at hrel
    rw [if_pos rfl]
    cases hk : rx.held[mesh]? with
    | none =>
      rw [hk] at hrel
      cases hrel
    | some k =>
      rw [hk] at hrel
      cases hrel with
      | some hmatch =>
        exact .some ⟨hmatch.publisher, hmatch.version, Full.sameTopology_trans hmatch.full hsame,
          hmatch.desynced⟩
  · rw [if_neg he]
    exact h.meshes m hm

/-- A delta from what is published is applied to what is held. -/
theorem Agreed.moved (now : Nat) (h : Agreed fw rx) (hown : mesh ≠ fw.ownMesh) {basis : Published}
    (hb : fw.published[mesh]? = some basis) {version : Nat} (hv : basis.version < version) {full : Full}
    (hsucc : basis.full.Succeeds full) :
    Agreed (fw.publish mesh ⟨basis.publisher, version, full⟩)
        (rx.takeFrame (fw.deltaFrame mesh basis version full now)).1 ∧
      (rx.takeFrame (fw.deltaFrame mesh basis version full now)).2 =
        .moved (.applied mesh basis.version version (basis.full.deltaTo full)) := by
  have hrel := h.meshes mesh hown
  rw [hb] at hrel
  cases hk : rx.held[mesh]? with
  | none =>
    rw [hk] at hrel
    cases hrel
  | some k =>
    rw [hk] at hrel
    cases hrel with
    | some hmatch =>
      let delta := basis.full.deltaTo full
      have htake : rx.takeDelta mesh basis.publisher basis.version version delta =
          ({ rx with held := rx.held.insert mesh (k.move basis.version version delta) },
            .applied mesh basis.version version delta) := by
        have hnot : ¬ version < basis.version := Nat.not_lt.mpr (Nat.le_of_lt hv)
        have hne : basis.version ≠ version := Nat.ne_of_lt hv
        simp only [SnapshotReceiver.takeDelta, SnapshotReceiver.takeDeltaAtBase, hk, hmatch.publisher,
          hmatch.version, hmatch.desynced, hnot, hne, Option.isSome_none, ne_eq, not_true_eq_false,
          if_false, Bool.false_eq_true]
      have hframe : rx.takeFrame (fw.deltaFrame mesh basis version full now) =
          ({ rx with held := rx.held.insert mesh (k.move basis.version version delta) },
            .moved (.applied mesh basis.version version delta)) := by
        rw [Forwarder.deltaFrame, SnapshotReceiver.takeFrame, htake]
        rfl
      rw [hframe]
      refine ⟨⟨h.pending, h.dropped, fun m x q hx hq => ?_, fun m hm => ?_⟩, rfl⟩
      · rw [getElem?_insert_eq] at hx
        split at hx
        next =>
          cases hx
          simp [Held.move] at hq
        next => exact h.snapshots m x q hx hq
      · rw [Forwarder.publish, getElem?_insert_eq, getElem?_insert_eq]
        by_cases he : mesh = m
        · rw [if_pos he, if_pos he]
          refine .some ⟨hmatch.publisher, rfl, ?_, hmatch.desynced⟩
          exact Full.sameTopology_trans (Full.apply_congr hmatch.full delta)
            (Full.apply_deltaTo_sameTopology hsucc)
        · rw [if_neg he, if_neg he]
          exact h.meshes m hm

end Sends

/-- The move is put on the channel, and its delta is too large for a frame. -/
def MovesByFull (encode : Frame → Bytes) (fw : Forwarder) (offer : Offer) (basis : Published)
    (now : Nat) : Prop :=
  ((basis.full.deltaTo offer.full.withoutLoads).isEmpty && offer.version == basis.version + 1) = false ∧
    (encode (fw.deltaFrame offer.mesh basis offer.version offer.full.withoutLoads now)).length > maxFrame

/-- An offer whose difference from what is published is all that a delta carries, where a delta
carries it, and whose full can be sent, where a full is sent. -/
structure SourceOk (encode : Frame → Bytes) (fw : Forwarder) (me : String) (offer : Offer) (now : Nat) :
    Prop where
  first : (∀ basis, fw.published[offer.mesh]? = some basis → basis.publisher ≠ offer.publisher) →
    Sendable encode fw me offer.mesh offer.published now
  next : ∀ basis, fw.published[offer.mesh]? = some basis → basis.publisher = offer.publisher →
    basis.version < offer.version →
      (MovesByFull encode fw offer basis now → Sendable encode fw me offer.mesh offer.published now) ∧
      (¬ MovesByFull encode fw offer basis now → basis.full.Succeeds offer.full.withoutLoads)

/-- Sources published one after another, none older than what is published of its publisher. -/
def FullsOk (encode : Frame → Bytes) (me : String) (now : Nat) : Forwarder → List Offer → Prop
  | _, [] => True
  | fw, offer :: held =>
    (offer.mesh ≠ fw.ownMesh → Sendable encode fw me offer.mesh offer.published now ∧
      ∀ basis, fw.published[offer.mesh]? = some basis → basis.publisher = offer.publisher →
        basis.version ≤ offer.version) ∧
    FullsOk encode me now (fulls encode me now fw [offer]).1 held

def ReplayOk (encode : Frame → Bytes) (me : String) (now : Nat) :
    Forwarder → List (String × Published) → Prop
  | _, [] => True
  | fw, (mesh, p) :: meshes =>
    Sendable encode fw me mesh p now ∧ ReplayOk encode me now (fw.fullFrames encode me mesh p now).1 meshes

section Steps

variable {encode : Frame → Bytes} {fw : Forwarder} {rx : SnapshotReceiver} {me mesh : String}
  {p : Published} {now : Nat} {os : List Offer}

theorem Delivers.nothing (h : Agreed fw rx) (hk : Known os fw) : Delivers os rx (fw, []) :=
  ⟨h, hk, by simp [SnapshotReceiver.frameAnswers]⟩

theorem Agreed.sent (h : Agreed fw rx) (hk : Known os fw) {o : Offer} (ho : o ∈ os)
    (hown : o.mesh ≠ fw.ownMesh) (hf : fw.Follows o.mesh o.published)
    (hs : Sendable encode fw me o.mesh o.published now) :
    Delivers os rx (fw.sendFull encode me o.mesh o.published now) := by
  obtain ⟨hagreed, hans⟩ := h.sendFull hown hf hs
  exact ⟨hagreed, hk.offered ho, hans⟩

/-- A next version that moves nothing is published without a frame. -/
theorem Agreed.unmoved (h : Agreed fw rx) (hk : Known os fw) {o : Offer} {basis : Published}
    (hbasis : fw.published[o.mesh]? = some basis) (hpub : basis.publisher = o.publisher)
    (hempty : (basis.full.deltaTo o.full.withoutLoads).isEmpty = true)
    (hsucc : basis.full.Succeeds o.full.withoutLoads) :
    Delivers os rx (fw.publish o.mesh ⟨o.publisher, basis.version, o.full.withoutLoads⟩, []) := by
  have hsame := Full.apply_deltaTo_sameTopology hsucc
  rw [Full.apply_of_isEmpty hempty] at hsame
  obtain ⟨x, hx, hm, hp, hver, hx'⟩ := hk o.mesh basis hbasis
  refine Delivers.nothing ?_ (hk.publish ⟨x, hx, hm, hp.trans hpub, hver, ?_⟩)
  · rw [← hpub]
    exact h.advance hbasis hsame
  · exact Full.sameTopology_trans hx'
      (Full.sameTopology_trans hsame o.full.withoutLoads_sameTopology)

/-- A delta sent from what is published is applied. -/
theorem Agreed.sentDelta (h : Agreed fw rx) (hk : Known os fw) {o : Offer} (ho : o ∈ os)
    (hown : o.mesh ≠ fw.ownMesh) {basis : Published} (hbasis : fw.published[o.mesh]? = some basis)
    (hpub : basis.publisher = o.publisher) (hv : basis.version < o.version)
    (hsucc : basis.full.Succeeds o.full.withoutLoads) :
    Delivers os rx (fw.publish o.mesh o.published,
      [fw.deltaFrame o.mesh basis o.version o.full.withoutLoads now]) := by
  obtain ⟨hagreed, hans⟩ := h.moved now hown hbasis hv hsucc
  refine ⟨?_, hk.offered ho, fun a ha => ?_⟩
  · rw [hpub] at hagreed
    exact hagreed
  · have ha : a = (rx.takeFrame (fw.deltaFrame o.mesh basis o.version o.full.withoutLoads now)).2 :=
      List.mem_singleton.mp ha
    rw [ha, hans]
    rfl

theorem Agreed.source (h : Agreed fw rx) (hk : Known os fw) (hn : Numbered os) {o : Offer}
    (ho : o ∈ os) (hok : o.mesh ≠ fw.ownMesh → SourceOk encode fw me o now) :
    Delivers os rx ((fw.source encode me o now).map id Forward.frames) := by
  unfold Forwarder.source
  by_cases hown : o.mesh = fw.ownMesh
  · simp only [if_pos hown]
    refine Delivers.nothing ?_ (hk.offered ho)
    rw [hown]
    exact h.publishOwn _
  · simp only [if_neg hown]
    have hok := hok hown
    cases hb : fw.published[o.mesh]?.filter fun p => p.publisher = o.publisher with
    | none =>
      have hother : ∀ basis, fw.published[o.mesh]? = some basis → basis.publisher ≠ o.publisher := by
        intro basis hbasis hpub
        rw [hbasis] at hb
        simp [hpub] at hb
      exact h.sent hk ho hown (fun basis hbasis hpub => absurd hpub (hother basis hbasis))
        (hok.first hother)
    | some basis =>
      obtain ⟨hbasis, hpub⟩ := Option.filter_eq_some_iff.mp hb
      have hpub : basis.publisher = o.publisher := by simpa using hpub
      dsimp only
      by_cases heq : o.version = basis.version
      · simp only [if_pos heq]
        exact Delivers.nothing h hk
      · by_cases hlt : o.version < basis.version
        · simp only [if_neg heq, if_pos hlt]
          exact Delivers.nothing h hk
        · simp only [if_neg heq, if_neg hlt]
          have hv : basis.version < o.version := by omega
          obtain ⟨hfull, hdelta⟩ := hok.next basis hbasis hpub hv
          by_cases hempty : ((basis.full.deltaTo o.full.withoutLoads).isEmpty &&
              o.version == basis.version + 1) = true
          · simp only [if_pos hempty]
            have hsucc := hdelta fun hm => Bool.false_ne_true (hm.1.symm.trans hempty)
            exact h.unmoved hk hbasis hpub (Bool.and_eq_true_iff.mp hempty).1 hsucc
          · simp only [if_neg hempty]
            by_cases hlarge : (encode (fw.deltaFrame o.mesh basis o.version o.full.withoutLoads now)).length
                > maxFrame
            · simp only [if_pos hlarge]
              have hfollows := hk.follows hn ho fun x hx _ => by
                rw [Option.some.inj (hx.symm.trans hbasis)]
                exact Nat.le_of_lt hv
              exact h.sent hk ho hown hfollows (hfull ⟨by simpa using hempty, hlarge⟩)
            · simp only [if_neg hlarge]
              exact h.sentDelta hk ho hown hbasis hpub hv (hdelta fun hm => hlarge hm.2)

theorem Delivers.append {out : Forwarder × List Frame} (h : Delivers os rx out)
    {next : Forwarder × List Frame} (hnext : Delivers os (rx.takeFrames out.2) next) :
    Delivers os rx (next.1, out.2 ++ next.2) := by
  refine ⟨?_, hnext.known, fun a ha => ?_⟩
  · rw [SnapshotReceiver.takeFrames_append]
    exact hnext.agreed
  · rw [SnapshotReceiver.frameAnswers_append, List.mem_append] at ha
    rcases ha with ha | ha
    · exact h.consistent a ha
    · exact hnext.consistent a ha

theorem Agreed.fulls (h : Agreed fw rx) (hk : Known os fw) (hn : Numbered os) {held : List Offer}
    (hos : ∀ o ∈ held, o ∈ os) (hok : FullsOk encode me now fw held) :
    Delivers os rx (fulls encode me now fw held) := by
  induction held generalizing fw rx with
  | nil => exact Delivers.nothing h hk
  | cons o held ih =>
    obtain ⟨hfirst, hrest⟩ := hok
    have ho := hos o List.mem_cons_self
    have hos : ∀ x ∈ held, x ∈ os := fun x hx => hos x (List.mem_cons_of_mem o hx)
    by_cases hown : o.mesh = fw.ownMesh
    · simp only [Forwarder.fulls, hown, ne_eq, not_true_eq_false, if_false] at hrest ⊢
      have hagreed := h.publishOwn o.published
      have hknown := hk.offered ho
      rw [hown] at hknown
      exact ih hagreed hknown hos hrest
    · simp only [Forwarder.fulls, hown, ne_eq, not_false_eq_true, if_true] at hrest ⊢
      obtain ⟨hs, hle⟩ := hfirst hown
      have hsent := h.sent hk ho hown (hk.follows hn ho hle) hs
      exact hsent.append (ih hsent.agreed hsent.known hos hrest)

theorem Agreed.replayOf (h : Agreed fw rx) (hk : Known os fw) {meshes : List (String × Published)}
    (hm : ∀ q ∈ meshes, fw.published[q.1]? = some q.2 ∧ q.1 ≠ fw.ownMesh)
    (hok : ReplayOk encode me now fw meshes) :
    Delivers os rx (replayOf encode me now fw meshes) := by
  induction meshes generalizing fw rx with
  | nil => exact Delivers.nothing h hk
  | cons q meshes ih =>
    obtain ⟨mesh, p⟩ := q
    obtain ⟨hs, hrest⟩ := hok
    obtain ⟨hp, hown⟩ := hm (mesh, p) List.mem_cons_self
    have hsame : fw.publish mesh p = fw := by
      have hmap : fw.published.insert mesh p = fw.published := by
        refine ExtTreeMap.ext_getElem? fun m => ?_
        rw [getElem?_insert_eq]
        split
        next he => rw [← he, hp]
        next => rfl
      rw [Forwarder.publish, hmap]
    have hfollows : fw.Follows mesh p := by
      intro basis hb _
      rw [hp] at hb
      cases hb
      exact ⟨Nat.le_refl _, fun _ => Full.sameTopology_refl _⟩
    obtain ⟨hagreed, hans⟩ := h.sendFull hown hfollows hs
    rw [Forwarder.sendFull, hsame] at hagreed hans
    have hsent : Delivers os rx (fw.fullFrames encode me mesh p now) := ⟨hagreed, hk, hans⟩
    exact hsent.append (ih hagreed hk (fun q hq => hm q (List.mem_cons_of_mem _ hq)) hrest)

theorem Agreed.replay (h : Agreed fw rx) (hk : Known os fw)
    (hok : ReplayOk encode me now fw (fw.published.toList.filter fun q => q.1 ≠ fw.ownMesh)) :
    Delivers os rx (fw.replay encode me now) := by
  refine h.replayOf hk (fun q hq => ?_) hok
  obtain ⟨hq, hne⟩ := List.mem_filter.mp hq
  exact ⟨ExtTreeMap.mem_toList_iff_getElem?_eq_some.mp hq, by simpa using hne⟩

end Steps

end Forwarder

/-- One call on a forwarder that holds its role. -/
inductive ForwardCall where
  | source (me : String) (offer : Offer) (now : Nat)
  | fulls (me : String) (held : List Offer) (now : Nat)
  | replay (me : String) (now : Nat)

def ForwardCall.offers : ForwardCall → List Offer
  | .source _ offer _ => [offer]
  | .fulls _ held _ => held
  | .replay _ _ => []

namespace Forwarder

/-- A forwarder that took its role and has published nothing. -/
def start (author : Birth) (snapshots : Nat) (ownMesh : String) : Forwarder :=
  ⟨author, ∅, snapshots, ownMesh⟩

def call (encode : Frame → Bytes) (fw : Forwarder) : ForwardCall → Forwarder × List Frame
  | .source me offer now => (fw.source encode me offer now).map id Forward.frames
  | .fulls me held now => fulls encode me now fw held
  | .replay me now => fw.replay encode me now

/-- What a call must meet for its frames to carry what it publishes. -/
def CallOk (encode : Frame → Bytes) (fw : Forwarder) : ForwardCall → Prop
  | .source me offer now => offer.mesh ≠ fw.ownMesh → SourceOk encode fw me offer now
  | .fulls me held now => FullsOk encode me now fw held
  | .replay me now =>
    ReplayOk encode me now fw (fw.published.toList.filter fun q => q.1 ≠ fw.ownMesh)

/-- A call, and its frames taken once and in order. -/
def exchange (encode : Frame → Bytes) (s : Forwarder × SnapshotReceiver) (call : ForwardCall) :
    (Forwarder × SnapshotReceiver) × List Answer :=
  let out := s.1.call encode call
  ((out.1, s.2.takeFrames out.2), s.2.frameAnswers out.2)

def exchanges (encode : Frame → Bytes) (fw : Forwarder) (calls : List ForwardCall) :
    Forwarder × SnapshotReceiver := Shards.run (exchange encode) (fw, .empty) calls

/-- The held version and full of each forwarded mesh are the published ones. -/
def SameSources (fw : Forwarder) (rx : SnapshotReceiver) : Prop :=
  ∀ mesh, mesh ≠ fw.ownMesh → rx.heldVersion mesh = fw.publishedVersion mesh ∧
    ∀ h p, rx.held[mesh]? = some h → fw.published[mesh]? = some p → h.full.sameTopology p.full = true

section Runs

variable {encode : Frame → Bytes} {fw : Forwarder} {rx : SnapshotReceiver} {os : List Offer}

theorem Agreed.call (h : Agreed fw rx) (hk : Known os fw) (hn : Numbered os) {call : ForwardCall}
    (hos : ∀ o ∈ call.offers, o ∈ os) (hok : CallOk encode fw call) :
    Delivers os rx (fw.call encode call) := by
  cases call with
  | source me offer now => exact h.source hk hn (hos offer List.mem_cons_self) hok
  | fulls me held now => exact h.fulls hk hn hos hok
  | replay me now => exact h.replay hk hok

theorem Agreed.same (h : Agreed fw rx) : SameSources fw rx := by
  intro mesh hown
  have hrel := h.meshes mesh hown
  rw [SnapshotReceiver.heldVersion, publishedVersion]
  cases hh : rx.held[mesh]? with
  | none =>
    rw [hh] at hrel
    cases hp : fw.published[mesh]? with
    | none => exact ⟨rfl, by simp⟩
    | some p =>
      rw [hp] at hrel
      cases hrel
  | some k =>
    rw [hh] at hrel
    cases hp : fw.published[mesh]? with
    | none =>
      rw [hp] at hrel
      cases hrel
    | some p =>
      rw [hp] at hrel
      cases hrel with
      | some hm =>
        refine ⟨?_, fun k' p' hk' hp' => ?_⟩
        · rw [Option.map_some, Option.map_some, hm.publisher, hm.version]
        · cases hk'
          cases hp'
          exact hm.full

theorem Agreed.start (author : Birth) (snapshots : Nat) (ownMesh : String) :
    Agreed (start author snapshots ownMesh) .empty := by
  refine ⟨fun k => ?_, fun mesh => ?_, fun mesh h p hh => ?_, fun mesh _ => ?_⟩
  · exact ExtTreeMap.getElem?_empty
  · exact ExtTreeMap.getElem?_empty
  · have hnone : SnapshotReceiver.empty.held[mesh]? = none := ExtTreeMap.getElem?_empty
    rw [hnone] at hh
    simp at hh
  · have hheld : SnapshotReceiver.empty.held[mesh]? = none := ExtTreeMap.getElem?_empty
    have hpublished : (Forwarder.start author snapshots ownMesh).published[mesh]? = none :=
      ExtTreeMap.getElem?_empty
    rw [hheld, hpublished]
    exact .none

end Runs

/-- Every call of the run meets its condition, in the state it is made in. -/
def RunOk (encode : Frame → Bytes) (fw : Forwarder) (calls : List ForwardCall) : Prop :=
  ∀ before call after, calls = before ++ call :: after → CallOk encode (exchanges encode fw before).1 call

theorem Agreed.run {encode : Frame → Bytes} {author : Birth} {snapshots : Nat} {ownMesh : String}
    {os : List Offer} (hn : Numbered os) {calls : List ForwardCall}
    (hos : ∀ call ∈ calls, ∀ o ∈ call.offers, o ∈ os)
    (hok : RunOk encode (Forwarder.start author snapshots ownMesh) calls) :
    let s := exchanges encode (Forwarder.start author snapshots ownMesh) calls
    Agreed s.1 s.2 ∧ Known os s.1 := by
  induction calls using List.reverseRecOn with
  | nil =>
    refine ⟨Agreed.start author snapshots ownMesh, fun mesh p hp => ?_⟩
    have hnone : (Forwarder.start author snapshots ownMesh).published[mesh]? = none :=
      ExtTreeMap.getElem?_empty
    have hp : (Forwarder.start author snapshots ownMesh).published[mesh]? = some p := hp
    rw [hnone] at hp
    simp at hp
  | append_singleton calls call ih =>
    obtain ⟨hagreed, hknown⟩ := ih (fun c hc => hos c (List.mem_append_left _ hc))
      fun before c after he => hok before c (after ++ [call]) (by rw [he]; simp)
    have hd := hagreed.call hknown hn (hos call (by simp)) (hok calls call [] rfl)
    rw [exchanges, Shards.run_concat]
    exact ⟨hd.agreed, hd.known⟩

/-- The forwarder and the receiver agree, in every run whose calls publish only what their frames
can carry. -/
theorem forwarder_receiver_agree {encode : Frame → Bytes} {author : Birth} {snapshots : Nat}
    {ownMesh : String} {calls : List ForwardCall} (hn : Numbered (calls.flatMap ForwardCall.offers))
    (hok : RunOk encode (start author snapshots ownMesh) calls) :
    ∀ before call after, calls = before ++ call :: after →
      let out := exchange encode (exchanges encode (start author snapshots ownMesh) before) call
      SameSources out.1.1 out.1.2 ∧ ∀ a ∈ out.2, a.Consistent := by
  intro before call after he
  have hos : ∀ c ∈ calls, ∀ o ∈ c.offers, o ∈ calls.flatMap ForwardCall.offers :=
    fun c hc o ho => List.mem_flatMap.mpr ⟨c, hc, ho⟩
  have hbefore : RunOk encode (Forwarder.start author snapshots ownMesh) before :=
    fun b c a hb => hok b c (a ++ call :: after) (by rw [he, hb]; simp)
  obtain ⟨hagreed, hknown⟩ := Agreed.run hn
    (fun c hc => hos c (by rw [he]; exact List.mem_append_left _ hc)) hbefore
  have hd := hagreed.call hknown hn (hos call (by rw [he]; simp)) (hok before call after he)
  exact ⟨hd.agreed.same, hd.consistent⟩

theorem source_first (encode : Frame → Bytes) {fw : Forwarder} (me : String) (o : Offer) (now : Nat)
    (hown : o.mesh ≠ fw.ownMesh) (hnone : fw.published[o.mesh]? = none) :
    fw.source encode me o now = (fw.sendFull encode me o.mesh o.published now).map id .full := by
  simp only [source, if_neg hown, hnone, Option.filter_none]
  rfl

/-- The mesh of one operation in flight, at a version of its publisher. -/
def offerOf (version : Nat) (inFlight deleted : List LifecycleOp) : Offer :=
  ⟨"mesh2", SnapshotReceiver.alice, version, Full.new [] inFlight deleted⟩

def forwarder : Forwarder := start ⟨"fabric1", "n9", "i9"⟩ 0 "mesh1"

def sourceCall (offer : Offer) : ForwardCall := .source "n9" offer 1

theorem numbered_pair {a b : Offer} (h : a.version ≠ b.version) : Numbered [a, b] := by
  intro x hx y hy _ _ hv
  simp only [List.mem_cons, List.not_mem_nil, or_false] at hx hy
  rcases hx with rfl | rfl <;> rcases hy with rfl | rfl
  · exact Full.sameTopology_refl _
  · exact absurd hv h
  · exact absurd hv.symm h
  · exact Full.sameTopology_refl _

theorem sendable_short {fw : Forwarder} {mesh : String} {p : Published} {now : Nat}
    (h : p.full.items.length < UInt32.size) : Sendable (fun _ => List.replicate 64 0) fw "n9" mesh p now := by
  refine ⟨fun item _ => by decide, ?_⟩
  have hruns : (runsOf p.full (fw.fullShape "n9" mesh p now) fun _ => List.replicate 64 0).length ≤
      max 1 p.full.items.length := runsOf_length
  have hone : 1 < UInt32.size := by decide
  omega

/-- A node that stops is forwarded as a full and leaves by a delta. -/
theorem forwarder_receiver_agree_stopped :
    let encode : Frame → Bytes := fun _ => List.replicate 64 0
    let s := exchanges encode forwarder [sourceCall (offerOf 1 [Full.opOn "node.stop"] [])]
    let out := exchange encode s (sourceCall (offerOf 2 [] [Full.opOn "node.delete"]))
    SameSources out.1.1 out.1.2 ∧ ∀ a ∈ out.2, a.Consistent := by
  intro encode s out
  have hplain : ∀ xs ys : List LifecycleOp, (Full.new [] xs ys).withoutLoads = Full.new [] xs ys :=
    fun xs ys => Full.eq_of_maps (by simp [Full.withoutLoads, Full.new, insertAll]) rfl rfl
  have hok : RunOk encode forwarder [sourceCall (offerOf 1 [Full.opOn "node.stop"] []),
      sourceCall (offerOf 2 [] [Full.opOn "node.delete"])] := by
    intro before call after he
    cases before with
    | nil =>
      obtain ⟨rfl, _⟩ := List.cons.inj he
      refine fun _ => ⟨fun _ => sendable_short (by decide +kernel), fun basis hb => ?_⟩
      have hnone : forwarder.published["mesh2"]? = none := ExtTreeMap.getElem?_empty
      have hb : forwarder.published["mesh2"]? = some basis := hb
      rw [hnone] at hb
      simp at hb
    | cons x before =>
      obtain ⟨hx, htail⟩ := List.cons.inj he
      cases before with
      | cons y before => simp at htail
      | nil =>
        obtain ⟨hcall, _⟩ := List.cons.inj htail
        subst hx hcall
        refine fun _ => ⟨fun _ => sendable_short (by decide +kernel), fun basis hb _ _ => ⟨?_, fun _ => ?_⟩⟩
        · intro _
          exact sendable_short (by decide +kernel)
        · have hpublished : s.1.published["mesh2"]? = some (offerOf 1 [Full.opOn "node.stop"] []).published := by
            have hfirst := source_first encode "n9" (offerOf 1 [Full.opOn "node.stop"] []) 1
              (show "mesh2" ≠ forwarder.ownMesh by decide) ExtTreeMap.getElem?_empty
            have hs : s.1 = (forwarder.sendFull encode "n9" "mesh2"
                (offerOf 1 [Full.opOn "node.stop"] []).published 1).1 := congrArg Prod.fst hfirst
            rw [hs]
            exact ExtTreeMap.getElem?_insert_self
          have hb : s.1.published["mesh2"]? = some basis := hb
          rw [hpublished] at hb
          cases hb
          simp only [Offer.published, offerOf, hplain]
          exact Full.stopped_succeeds
  have hn : Numbered ([sourceCall (offerOf 1 [Full.opOn "node.stop"] []),
      sourceCall (offerOf 2 [] [Full.opOn "node.delete"])].flatMap ForwardCall.offers) :=
    numbered_pair (by simp [offerOf])
  exact forwarder_receiver_agree hn hok [_] _ [] rfl

/-- An overlay that ends with its operation leaves no delta: the published full moves alone, and
the replayed full is refused. -/
theorem ended_overlay_disagrees :
    let encode : Frame → Bytes := fun _ => List.replicate 64 0
    let calls := [sourceCall (offerOf 1 [Full.opOn "node.restart"] []), sourceCall (offerOf 2 [] [])]
    let s := exchanges encode forwarder calls
    Numbered (calls.flatMap ForwardCall.offers) ∧ ¬ SameSources s.1 s.2 ∧
      ∃ a ∈ (exchange encode s (.replay "n9" 2)).2, ¬ a.Consistent := by
  intro encode calls s
  refine ⟨?_, fun h => ?_, ?_⟩
  · exact numbered_pair (by simp [offerOf])
  · have hfull : ((s.2.heldFull "mesh2").bind fun f => s.1.published["mesh2"]?.map fun p =>
        f.sameTopology p.full) = some false := by
      decide +kernel
    obtain ⟨f, hf, hpublished⟩ := Option.bind_eq_some_iff.mp hfull
    obtain ⟨k, hk, rfl⟩ := Option.map_eq_some_iff.mp hf
    obtain ⟨p, hp, hsame⟩ := Option.map_eq_some_iff.mp hpublished
    have hown : "mesh2" ≠ s.1.ownMesh := by decide +kernel
    have hagree := (h "mesh2" hown).2 k p hk hp
    rw [hsame] at hagree
    simp at hagree
  · have hans : ((exchange encode s (.replay "n9" 2)).2.any Answer.isInconsistent) = true := by
      decide +kernel
    obtain ⟨a, ha, hbad⟩ := List.any_eq_true.mp hans
    exact ⟨a, ha, fun hok => by simp [Answer.Consistent, hbad] at hok⟩

end Forwarder

end DistributedMesh
