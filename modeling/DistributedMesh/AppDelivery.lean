import DistributedMesh.AppPublishing
import DistributedMesh.GuardedRuns

namespace DistributedMesh.App

open ByteFormats
open Framing (Bytes)
open Gossip
open GuardedRuns

variable {σ κ : Type} [DecidableEq κ] {R : Reader σ κ} {s t u : Inbox σ} {now : Nat} {h : Gossip.Header}
  {messages : List Bytes}

section Frames

variable {source : Birth} {id : String}

/-- What was handed over of one event. -/
def ours (source : Birth) (id : String) (l : List Received) : List Received :=
  l.filter fun e => e.source = source ∧ e.id = id

/-- A message that is not of the event: of none, or of one with another identity. -/
def Foreign (R : Reader σ κ) (source : Birth) (id : String) (content : Bytes) : Prop :=
  ∀ h, readHeader R.chrono content maxFrame = .ok h →
    R.eventIdentity h.source (if h.kind = chunkType then h.subject else h.id) ≠ R.eventIdentity source id

/-- Once finished, the event is still known at `now`. -/
def Remembers (R : Reader σ κ) (source : Birth) (id : String) (now : Nat) (s : Inbox σ) : Prop :=
  ∀ e, R.cache.expiry s.seen (R.eventIdentity source id) = some e → now < e

/-- A step in which the event is not forgotten, nor what there is of its chunks, with a place of the queue free for its own
messages, and that brings no other message under its identity. -/
def Undisturbed (R : Reader σ κ) (source : Birth) (id : String) (messages : List Bytes) (s : Inbox σ) : Nat × Item → Prop
  | (now, .message content) =>
    (content ∈ messages → s.queued < queueCapacity) ∧ (content ∉ messages → Foreign R source id content) ∧
      Remembers R source id now s
  | (now, .notice) => Remembers R source id now s
  | (now, .expiry) => ∀ a, s.assemblies (source, id) = some a → now < a.deadline
  | (_, .taken) => True

/-- Nothing was changed that is of the event. -/
structure Kept (R : Reader σ κ) (source : Birth) (id : String) (s t : Inbox σ) : Prop where
  assembly : t.assemblies (source, id) = s.assemblies (source, id)
  expiry : R.cache.expiry t.seen (R.eventIdentity source id) = R.cache.expiry s.seen (R.eventIdentity source id)
  handed : ours source id t.handed = ours source id s.handed

theorem Kept.refl (s : Inbox σ) : Kept R source id s s := ⟨rfl, rfl, rfl⟩

theorem Kept.trans (hst : Kept R source id s t) (htu : Kept R source id t u) : Kept R source id s u :=
  ⟨htu.assembly.trans hst.assembly, htu.expiry.trans hst.expiry, htu.handed.trans hst.handed⟩

theorem kept_expireSeen (hremembers : Remembers R source id now s) : Kept R source id s (expireSeen R now s) := by
  refine ⟨rfl, ?_, rfl⟩
  show R.cache.expiry (R.cache.expireUntil s.seen now) _ = _
  rw [R.cache.expiry_expireUntil]
  cases hexpiry : R.cache.expiry s.seen (R.eventIdentity source id) with
  | none => rfl
  | some e => rw [Option.filter_some, if_pos (decide_eq_true (hremembers e hexpiry))]

theorem kept_putAssembly {key : Birth × String} (hkey : key ≠ (source, id)) (a : Option Assembly) :
    Kept R source id s (putAssembly s key a) :=
  ⟨Function.update_of_ne hkey.symm _ _, rfl, rfl⟩

theorem kept_deliver {event : Received} (hother : ¬ (event.source = source ∧ event.id = id)) :
    Kept R source id s (deliver s event) := by
  unfold deliver
  split
  next =>
    refine ⟨rfl, rfl, ?_⟩
    simp only [ours, List.filter_append, List.filter_singleton, hother, decide_false, Bool.cond_false,
      List.append_nil]
  next => exact ⟨rfl, rfl, rfl⟩

theorem kept_finish (hother : R.eventIdentity h.source h.id ≠ R.eventIdentity source id) :
    Kept R source id s (finish R now s h) := by
  unfold finish
  split
  next => exact Kept.refl s
  next sequence hsequence =>
    split
    next => exact Kept.refl s
    next hunseen =>
      rw [R.cache.contains_eq, Bool.not_eq_true, Option.isSome_eq_false_iff, Option.isNone_iff_eq_none] at hunseen
      have hinsert : Kept R source id s
          { s with seen := R.cache.insert s.seen (R.eventIdentity h.source h.id) (now + R.retention) } := by
        refine ⟨rfl, ?_, rfl⟩
        rw [R.cache.expiry_insert _ _ _ _ hunseen, if_neg hother.symm]
      refine hinsert.trans (kept_deliver ?_)
      rintro ⟨rfl, rfl⟩
      exact hother rfl

theorem kept_assemble {key : Birth × String} {i n : Nat} {bytes : Bytes} (hkey : key ≠ (source, id)) :
    Kept R source id s (assemble R now s key i n bytes).1 ∧
      ∀ whole, (assemble R now s key i n bytes).2 = some whole → whole.source = key.1 ∧ whole.id = key.2 := by
  unfold assemble
  dsimp only
  split
  next => exact ⟨Kept.refl s, fun _ hnone => nomatch hnone⟩
  next =>
    split
    next => exact ⟨kept_putAssembly hkey _, fun _ hnone => nomatch hnone⟩
    next =>
      split
      next => exact ⟨kept_putAssembly hkey _, fun _ hnone => nomatch hnone⟩
      next =>
        split
        next => exact ⟨kept_putAssembly hkey _, fun _ hnone => nomatch hnone⟩
        next whole hwhole =>
          split
          next => exact ⟨kept_putAssembly hkey _, fun _ hnone => nomatch hnone⟩
          next hsame =>
            rw [not_or, not_not, not_not] at hsame
            refine ⟨kept_putAssembly hkey _, fun other hother => ?_⟩
            cases hother
            exact hsame

theorem kept_takeChunk (hother : R.eventIdentity h.source h.subject ≠ R.eventIdentity source id) :
    Kept R source id s (takeChunk R now s h).1 ∧
      ∀ whole, (takeChunk R now s h).2 = some whole → whole.source = h.source ∧ whole.id = h.subject := by
  have hkey : (h.source, h.subject) ≠ (source, id) := by
    intro heq
    rw [Prod.mk.injEq] at heq
    exact hother (by rw [heq.1, heq.2])
  unfold takeChunk
  split
  next => exact ⟨Kept.refl s, fun _ hnone => nomatch hnone⟩
  next =>
    split
    next => exact ⟨Kept.refl s, fun _ hnone => nomatch hnone⟩
    next =>
      split
      next => exact ⟨Kept.refl s, fun _ hnone => nomatch hnone⟩
      next => exact kept_assemble hkey

theorem kept_receive {content : Bytes} (hforeign : Foreign R source id content) :
    Kept R source id s (receive R now s content) := by
  unfold receive
  split
  next => exact Kept.refl s
  next h hread =>
    have hother := hforeign h hread
    split
    next => exact Kept.refl s
    next =>
      split
      next hchunk =>
        rw [if_pos hchunk] at hother
        obtain ⟨hkept, hwhole⟩ : Kept R source id s (takeChunk R now s h).1 ∧ _ := kept_takeChunk hother
        split
        next t htaken =>
          rw [htaken] at hkept
          exact hkept
        next t whole htaken =>
          rw [htaken] at hkept hwhole
          obtain ⟨hsource, hid⟩ := hwhole whole rfl
          refine hkept.trans (kept_finish ?_)
          rw [hsource, hid]
          exact hother
      next hwhole =>
        rw [if_neg hwhole] at hother
        exact kept_finish hother

/-- A step that is not a message of the event changes nothing of it. -/
theorem kept_step {x : Nat × Item} (hok : Undisturbed R source id messages s x)
    (hother : ∀ now content, x = (now, .message content) → content ∉ messages) : Kept R source id s (step R s x) := by
  match x with
  | (now, .message content) =>
    have hforeign := hok.2.1 (hother now content rfl)
    exact (kept_expireSeen hok.2.2).trans (kept_receive hforeign)
  | (now, .notice) => exact kept_expireSeen hok
  | (now, .expiry) =>
    refine ⟨?_, rfl, rfl⟩
    show (s.assemblies (source, id)).filter _ = _
    cases hassembly : s.assemblies (source, id) with
    | none => rfl
    | some a => rw [Option.filter_some, if_pos (decide_eq_true (hok a hassembly))]
  | (now, .taken) => exact ⟨rfl, rfl, rfl⟩

end Frames

section Finishing

variable {a : Attributes} {data : Bytes}

/-- The event as its subscriber is to have it. -/
def Attributes.received (a : Attributes) (data : Bytes) : Received :=
  ⟨a.id, a.source, a.subject, a.sequence, a.time, a.dataschema, data⟩

/-- The event is known, and was handed over once since `before`. -/
structure Arrived (R : Reader σ κ) (a : Attributes) (data : Bytes) (before : List Received) (s : Inbox σ) : Prop where
  seen : (R.cache.expiry s.seen (R.eventIdentity a.source a.id)).isSome
  handed : ours a.source a.id s.handed = before ++ [a.received data]

theorem sequenceOf_map (hsequence : ∀ n, a.sequence = some n → n < 2 ^ 64) :
    sequenceOf (a.sequence.map p) = some a.sequence := by
  cases hn : a.sequence with
  | none => rfl
  | some n =>
    show (scalar (p n)).map some = _
    rw [scalar_p (hsequence n hn)]
    rfl

theorem contains_of_unseen {k : κ} (hunseen : R.cache.expiry s.seen k = none) : R.cache.contains s.seen k = false := by
  rw [R.cache.contains_eq, hunseen]
  rfl

theorem finish_of_seen (hseen : (R.cache.expiry s.seen (R.eventIdentity h.source h.id)).isSome) : finish R now s h = s := by
  unfold finish
  split
  next => rfl
  next => rw [if_pos (by rw [R.cache.contains_eq]; exact hseen)]

/-- The first whole event of an identity is handed over, with a place free for it. -/
theorem arrived_finish (hsequence : ∀ n, a.sequence = some n → n < 2 ^ 64)
    (hunseen : R.cache.expiry s.seen (R.eventIdentity a.source a.id) = none) (hroom : s.queued < queueCapacity) :
    Arrived R a data (ours a.source a.id s.handed) (finish R now s (a.header data)) := by
  have hfinish : finish R now s (a.header data) = deliver
      { s with seen := R.cache.insert s.seen (R.eventIdentity a.source a.id) (now + R.retention) } (a.received data) := by
    unfold finish
    rw [show (a.header data).sequence = a.sequence.map p from rfl, sequenceOf_map hsequence]
    exact if_neg (by rw [show R.eventIdentity (a.header data).source (a.header data).id = R.eventIdentity a.source a.id
      from rfl, contains_of_unseen hunseen]; exact Bool.false_ne_true)
  rw [hfinish, deliver, if_pos hroom]
  constructor
  · rw [R.cache.expiry_insert _ _ _ _ hunseen, if_pos rfl]
    rfl
  · show ours _ _ (s.handed ++ [a.received data]) = _
    simp [ours, Attributes.received]

end Finishing

section Assembling

variable {a : Attributes} {data full : Bytes} {pieces : List Bytes} {i : Nat} {piece m : Bytes}

/-- The event is not known, and lacks one of its pieces. -/
structure Waiting (R : Reader σ κ) (a : Attributes) (pieces : List Bytes) (s : Inbox σ) : Prop where
  unseen : R.cache.expiry s.seen (R.eventIdentity a.source a.id) = none
  unfinished : ∀ asm, s.assemblies (a.source, a.id) = some asm → Pieces.Filled pieces asm.parts ∧ none ∈ asm.parts

/-- Piece `i` of the event was put in its place. -/
def Held (a : Attributes) (s : Inbox σ) (i : Nat) : Prop :=
  ∃ asm piece, s.assemblies (a.source, a.id) = some asm ∧ asm.parts[i]? = some (some piece)

theorem Kept.waiting (hkept : Kept R a.source a.id s t) (hs : Waiting R a pieces s) : Waiting R a pieces t := by
  refine ⟨hkept.expiry.trans hs.unseen, fun asm hasm => ?_⟩
  rw [hkept.assembly] at hasm
  exact hs.unfinished asm hasm

theorem Kept.held (hkept : Kept R a.source a.id s t) (hs : Held a s i) : Held a t i := by
  obtain ⟨asm, piece, hasm, hpiece⟩ := hs
  exact ⟨asm, piece, hkept.assembly.trans hasm, hpiece⟩

theorem Kept.arrived {before : List Received} (hkept : Kept R a.source a.id s t) (hs : Arrived R a data before s) :
    Arrived R a data before t := by
  refine ⟨?_, hkept.handed.trans hs.handed⟩
  rw [hkept.expiry]
  exact hs.seen

/-- The header of the whole event, where it is the one that its chunks were sent for. -/
def wholeOf (R : Reader σ κ) (key : Birth × String) (full : Bytes) : Option Gossip.Header :=
  match readHeader R.chrono full (maxFrame * parts) with
  | .error _ => none
  | .ok whole => if whole.source ≠ key.1 ∨ whole.id ≠ key.2 then none else some whole

theorem assemble_eq {key : Birth × String} {n : Nat} {bytes : Bytes} {asm : Assembly}
    (hunseen : R.cache.expiry s.seen (R.eventIdentity key.1 key.2) = none)
    (hasm : (s.assemblies key).getD ⟨List.replicate n none, now + R.stalenessFloor⟩ = asm)
    (hagrees : ¬ (asm.parts.length ≠ n ∨ (asm.parts[i]?.join.any fun old => old ≠ bytes) = true)) :
    assemble R now s key i n bytes =
      if (asm.parts.set i (some bytes)).any Option.isNone then
        (putAssembly s key (some { asm with parts := asm.parts.set i (some bytes) }), none)
      else (putAssembly s key none, wholeOf R key ((asm.parts.set i (some bytes)).filterMap id).flatten) := by
  unfold assemble wholeOf
  rw [contains_of_unseen hunseen, hasm]
  dsimp only
  rw [if_neg Bool.false_ne_true, if_neg hagrees]
  split
  next => rfl
  next =>
    cases readHeader R.chrono ((asm.parts.set i (some bytes)).filterMap id).flatten (maxFrame * parts) with
    | error e => rfl
    | ok whole =>
      dsimp only
      split
      next => rfl
      next => rfl

/-- A chunk of a waiting event is put in its place, or was the last. -/
theorem assemble_chunk (hs : Waiting R a pieces s) (hpiece : pieces[i]? = some piece) :
    (∃ slots deadline, Pieces.Filled pieces slots ∧ none ∈ slots ∧ slots[i]? = some (some piece) ∧
      (∀ j, Held a s j → ∃ q, slots[j]? = some (some q)) ∧
      assemble R now s (a.source, a.id) i pieces.length piece =
        (putAssembly s (a.source, a.id) (some ⟨slots, deadline⟩), none)) ∨
    assemble R now s (a.source, a.id) i pieces.length piece =
      (putAssembly s (a.source, a.id) none, wholeOf R (a.source, a.id) pieces.flatten) := by
  obtain ⟨asm, hasm⟩ : ∃ asm, (s.assemblies (a.source, a.id)).getD
    ⟨List.replicate pieces.length none, now + R.stalenessFloor⟩ = asm := ⟨_, rfl⟩
  have hfilled : Pieces.Filled pieces asm.parts := by
    cases hold : s.assemblies (a.source, a.id) with
    | none =>
      rw [hold, Option.getD_none] at hasm
      rw [← hasm]
      exact Pieces.filled_empty pieces
    | some old =>
      rw [hold, Option.getD_some] at hasm
      rw [← hasm]
      exact (hs.unfinished old hold).1
  have hi : i < asm.parts.length := by
    rw [hfilled.length]
    exact (List.getElem?_eq_some_iff.mp hpiece).1
  have hagrees : ¬ (asm.parts.length ≠ pieces.length ∨ (asm.parts[i]?.join.any fun old => old ≠ piece) = true) := by
    rw [not_or, not_not]
    refine ⟨hfilled.length, ?_⟩
    cases hold : asm.parts[i]?.join with
    | none => simp
    | some old =>
      have hown := hfilled.own i old (Option.join_eq_some_iff.mp hold)
      rw [hpiece] at hown
      simp [Option.some.inj hown]
  have hset := hfilled.set hpiece
  have hnew : (asm.parts.set i (some piece))[i]? = some (some piece) := List.getElem?_set_self hi
  rw [assemble_eq hs.unseen hasm hagrees]
  split
  next hlacks =>
    left
    refine ⟨_, _, hset, ?_, hnew, fun j hj => ?_, rfl⟩
    · obtain ⟨slot, hslot, hnone⟩ := List.any_eq_true.mp hlacks
      rwa [Option.isNone_iff_eq_none.mp hnone] at hslot
    · obtain ⟨old, q, hold, hq⟩ := hj
      by_cases hji : i = j
      · exact ⟨piece, hji ▸ hnew⟩
      · refine ⟨q, ?_⟩
        rw [hold, Option.getD_some] at hasm
        rw [List.getElem?_set_ne hji, ← hasm]
        exact hq
  next hfull =>
    right
    have hall : ∀ slot ∈ asm.parts.set i (some piece), slot.isSome := by
      intro slot hslot
      by_contra hnone
      exact hfull (List.any_eq_true.mpr ⟨slot, hslot, by simpa using hnone⟩)
    rw [hset.complete hall]

end Assembling

section Receiving

variable {a : Attributes} {data full : Bytes} {pieces : List Bytes} {i : Nat} {piece m : Bytes} {before : List Received}

/-- The attributes are of a birth of the channel's fabric, under an id as every publication has one, at a time that the
calendar keeps, with a sequence of one word. -/
structure Authored (R : Reader σ κ) (a : Attributes) : Prop where
  source : a.source.Canonical
  fabric : a.source.fabric = R.fabric
  id : Minted a.id
  time : R.chrono.Keeps a.time
  sequence : ∀ n, a.sequence = some n → n < 2 ^ 64

theorem readHeader_full {limit : Nat} (ha : Authored R a) (h : a.encode R.chrono data = .ok full) (hlen : full.length ≤ limit)
    (hlimit : limit < 2 ^ 64) (hreadable : a.Readable) : readHeader R.chrono full limit = .ok (a.header data) :=
  readHeader_of_readable h hlen hlimit ha.source ha.time ⟨ha.id.ne_empty, ha.id.printable⟩ hreadable

theorem readHeader_unreadable {limit : Nat} (h : a.encode R.chrono data = .ok full) (hlen : full.length ≤ limit)
    (hlimit : limit < 2 ^ 64) (hunreadable : ¬ a.Readable) : ∃ e, readHeader R.chrono full limit = .error e := by
  cases hread : readHeader R.chrono full limit with
  | error e => exact ⟨e, rfl⟩
  | ok header => exact absurd (readable_of_readHeader h hlen hlimit hread) hunreadable

theorem receive_eq (hread : readHeader R.chrono m maxFrame = .ok h) (hfabric : h.source.fabric = R.fabric) :
    receive R now s m =
      if h.kind = chunkType then
        match takeChunk R now s h with
        | (t, none) => t
        | (t, some whole) => finish R now t whole
      else finish R now s h := by
  unfold receive
  rw [hread]
  exact if_neg (not_not.mpr hfabric)

theorem receive_whole (ha : Authored R a) (h : a.encode R.chrono data = .ok full) (hlen : full.length ≤ maxFrame)
    (hreadable : a.Readable) (hkind : a.kind ≠ chunkType) : receive R now s full = finish R now s (a.header data) := by
  rw [receive_eq (readHeader_full ha h hlen (by decide) hreadable) ha.fabric]
  exact if_neg hkind

/-- A whole event that no receiver reads, or that is read as a chunk, is dropped. -/
theorem receive_undeliverable (ha : Authored R a) (h : a.encode R.chrono data = .ok full) (hlen : full.length ≤ maxFrame)
    (hbad : ¬ a.Readable ∨ a.kind = chunkType) : receive R now s full = s := by
  by_cases hreadable : a.Readable
  · have hkind := hbad.resolve_left (not_not.mpr hreadable)
    have htaken : takeChunk R now s (a.header data) = (s, none) := by
      unfold takeChunk
      split
      next => rfl
      next =>
        split
        next => rfl
        next i n bytes hbody => exact if_pos (Or.inr (Or.inr (Or.inr (ha.id.ne_chunk a.subject i))))
    rw [receive_eq (readHeader_full ha h hlen (by decide) hreadable) ha.fabric, htaken]
    exact if_pos hkind
  · obtain ⟨e, hread⟩ := readHeader_unreadable h hlen (by decide) hreadable
    unfold receive
    rw [hread]

theorem wholeOf_readable (ha : Authored R a) (h : a.encode R.chrono data = .ok full)
    (hlen : full.length ≤ maxFrame * parts) (hreadable : a.Readable) :
    wholeOf R (a.source, a.id) full = some (a.header data) := by
  unfold wholeOf
  rw [readHeader_full ha h hlen (by decide) hreadable]
  exact if_neg (by simp [Attributes.header])

theorem wholeOf_unreadable (h : a.encode R.chrono data = .ok full) (hlen : full.length ≤ maxFrame * parts)
    (hunreadable : ¬ a.Readable) : wholeOf R (a.source, a.id) full = none := by
  obtain ⟨e, hread⟩ := readHeader_unreadable h hlen (by decide) hunreadable
  unfold wholeOf
  rw [hread]

theorem receive_chunk (ha : Authored R a) (hchunks : Chunks R.chrono a full pieces messages) (hm : m ∈ messages)
    (hpiece : pieces[i]? = some piece)
    (hok : (a.chunk i).encode R.chrono (chunkBody.enc (i, pieces.length, piece)) = .ok m) :
    receive R now s m =
      match assemble R now s (a.source, a.id) i pieces.length piece with
      | (t, none) => t
      | (t, some whole) => finish R now t whole := by
  have hlen := hchunks.bound m hm
  have hi : i < pieces.length := (List.getElem?_eq_some_iff.mp hpiece).1
  have hcount := hchunks.count
  have htaken : takeChunk R now s ((a.chunk i).header (chunkBody.enc (i, pieces.length, piece))) =
      assemble R now s (a.source, a.id) i pieces.length piece := by
    unfold takeChunk
    rw [if_neg (by simp [Attributes.header, Attributes.chunk])]
    simp only [Attributes.header, decode_chunkBody hi hcount hok hlen]
    refine if_neg ?_
    simp only [not_or, not_not]
    exact ⟨by omega, by omega, by omega, rfl⟩
  rw [receive_eq (readHeader_chunk ha.source ha.time ha.id hok hlen) ha.fabric, htaken]
  exact if_pos rfl

theorem receive_chunk_arrived (ha : Authored R a) (hchunks : Chunks R.chrono a full pieces messages) (hm : m ∈ messages)
    (hs : Arrived R a data before s) : receive R now s m = s := by
  obtain ⟨i, piece, hpiece, hok⟩ := hchunks.sent m hm
  have hassemble : assemble R now s (a.source, a.id) i pieces.length piece = (s, none) := by
    unfold assemble
    exact if_pos (by rw [R.cache.contains_eq]; exact hs.seen)
  rw [receive_chunk ha hchunks hm hpiece hok, hassemble]

theorem receive_chunk_waiting (ha : Authored R a) (hchunks : Chunks R.chrono a full pieces messages) (hm : m ∈ messages)
    (hpiece : pieces[i]? = some piece)
    (hok : (a.chunk i).encode R.chrono (chunkBody.enc (i, pieces.length, piece)) = .ok m) (hs : Waiting R a pieces s) :
    Waiting R a pieces (receive R now s m) ∧ (receive R now s m).handed = s.handed ∧ Held a (receive R now s m) i ∧
      (∀ j, Held a s j → Held a (receive R now s m) j) ∨
    receive R now s m =
      match wholeOf R (a.source, a.id) full with
      | none => putAssembly s (a.source, a.id) none
      | some whole => finish R now (putAssembly s (a.source, a.id) none) whole := by
  rw [receive_chunk ha hchunks hm hpiece hok]
  rcases @assemble_chunk σ κ _ R s now a pieces i piece hs hpiece with
    ⟨slots, deadline, hfilled, hlacks, hplace, hheld, hassemble⟩ | hassemble
  · left
    rw [hassemble]
    have hput : (putAssembly s (a.source, a.id) (some ⟨slots, deadline⟩)).assemblies (a.source, a.id) =
        some ⟨slots, deadline⟩ := Function.update_self _ _ _
    refine ⟨⟨hs.unseen, fun asm hasm => ?_⟩, rfl, ⟨_, piece, hput, hplace⟩, fun j hj => ?_⟩
    · rw [hput] at hasm
      cases hasm
      exact ⟨hfilled, hlacks⟩
    · obtain ⟨q, hq⟩ := hheld j hj
      exact ⟨_, q, hput, hq⟩
  · right
    rw [hassemble, hchunks.whole]
    cases wholeOf R (a.source, a.id) full with
    | none => rfl
    | some whole => rfl

end Receiving

section Runs

variable {a : Attributes} {data full : Bytes} {pieces : List Bytes} {items : List (Nat × Item)} {W : Inbox σ → Prop}
  {Got : Inbox σ → Bytes → Prop} {x : Nat × Item}

/-- How an event is gathered from its messages: it waits, with some of them got, until it has arrived. -/
structure Gathers (R : Reader σ κ) (a : Attributes) (data : Bytes) (messages : List Bytes) (W : Inbox σ → Prop)
    (Got : Inbox σ → Bytes → Prop) : Prop where
  waits : ∀ s t, Kept R a.source a.id s t → W s → W t
  got : ∀ s t m, Kept R a.source a.id s t → Got s m → Got t m
  lacks : ∀ s, W s → ∃ m ∈ messages, ¬ Got s m
  own : ∀ s now m, m ∈ messages → s.queued < queueCapacity → W s →
    W (receive R now s m) ∧ (receive R now s m).handed = s.handed ∧ Got (receive R now s m) m ∧
      (∀ q, Got s q → Got (receive R now s m) q) ∨
    Arrived R a data (ours a.source a.id s.handed) (receive R now s m)
  known : ∀ s now m before, m ∈ messages → Arrived R a data before s → receive R now s m = s

/-- Every message of the event among the steps so far was got, unless it has arrived. -/
def Progress (R : Reader σ κ) (a : Attributes) (data : Bytes) (messages : List Bytes) (W : Inbox σ → Prop)
    (Got : Inbox σ → Bytes → Prop) (before : List Received) (xs : List (Nat × Item)) (s : Inbox σ) : Prop :=
  Arrived R a data before s ∨
    W s ∧ ours a.source a.id s.handed = before ∧ ∀ now, ∀ m ∈ messages, (now, Item.message m) ∈ xs → Got s m

theorem progress_step {before : List Received} {xs : List (Nat × Item)} (hg : Gathers R a data messages W Got)
    (hs : Progress R a data messages W Got before xs s) (hok : Undisturbed R a.source a.id messages s x) :
    Progress R a data messages W Got before (xs ++ [x]) (step R s x) := by
  by_cases hown : ∃ now, ∃ m ∈ messages, x = (now, .message m)
  · obtain ⟨now, m, hm, rfl⟩ := hown
    have hkept := kept_expireSeen hok.2.2
    show Progress R a data messages W Got before _ (receive R now (expireSeen R now s) m)
    rcases hs with harrived | ⟨hw, hhanded, hgot⟩
    · rw [hg.known _ now m before hm (hkept.arrived harrived)]
      exact Or.inl (hkept.arrived harrived)
    · rcases hg.own (expireSeen R now s) now m hm (hok.1 hm) (hg.waits _ _ hkept hw) with ⟨hw', hhanded', hnew, hold⟩ | harrived
      · refine Or.inr ⟨hw', ?_, fun time q hq hmem => ?_⟩
        · rw [hhanded', hkept.handed, hhanded]
        · rcases List.mem_append.mp hmem with hmem | hmem
          · exact hold q (hg.got _ _ q hkept (hgot time q hq hmem))
          · cases List.mem_singleton.mp hmem
            exact hnew
      · rw [hkept.handed, hhanded] at harrived
        exact Or.inl harrived
  · have hkept := kept_step hok fun now m hx hm => hown ⟨now, m, hm, hx⟩
    rcases hs with harrived | ⟨hw, hhanded, hgot⟩
    · exact Or.inl (hkept.arrived harrived)
    · refine Or.inr ⟨hg.waits _ _ hkept hw, hkept.handed.trans hhanded, fun time q hq hmem => ?_⟩
      rcases List.mem_append.mp hmem with hmem | hmem
      · exact hg.got _ _ q hkept (hgot time q hq hmem)
      · exact absurd ⟨time, q, hq, (List.mem_singleton.mp hmem).symm⟩ hown

/-- An event whose messages all arrive, in any order and however often, is handed over once. -/
theorem arrived_run (hg : Gathers R a data messages W Got) (hs : W s)
    (hrun : RunOk (step R) (Undisturbed R a.source a.id messages) s items)
    (hitems : ∀ m ∈ messages, ∃ now, (now, Item.message m) ∈ items) :
    Arrived R a data (ours a.source a.id s.handed) (run R s items) := by
  have hstart : Progress R a data messages W Got (ours a.source a.id s.handed) [] s :=
    Or.inr ⟨hs, rfl, fun _ _ _ hmem => nomatch hmem⟩
  have hend := hrun.along (fun xs t x ht hok => progress_step hg ht hok) hstart
  rw [List.nil_append] at hend
  rcases hend with harrived | ⟨hw, -, hgot⟩
  · exact harrived
  · obtain ⟨m, hm, hlacks⟩ := hg.lacks _ hw
    obtain ⟨now, hmem⟩ := hitems m hm
    exact absurd (hgot now m hm hmem) hlacks

/-- An event that none of its messages hands over is not handed over. -/
theorem dropped_run (hwaits : ∀ s t, Kept R a.source a.id s t → W s → W t)
    (hown : ∀ s now m, m ∈ messages → W s → W (receive R now s m) ∧ (receive R now s m).handed = s.handed) (hs : W s)
    (hrun : RunOk (step R) (Undisturbed R a.source a.id messages) s items) :
    ours a.source a.id (run R s items).handed = ours a.source a.id s.handed := by
  have hinv : W (run R s items) ∧ ours a.source a.id (run R s items).handed = ours a.source a.id s.handed := by
    refine @RunOk.invariant _ _ _ _ (fun t => W t ∧ ours a.source a.id t.handed = ours a.source a.id s.handed) ?_ s items
      ⟨hs, rfl⟩ hrun
    intro t x ht hok
    by_cases hof : ∃ now, ∃ m ∈ messages, x = (now, .message m)
    · obtain ⟨now, m, hm, rfl⟩ := hof
      have hkept := kept_expireSeen hok.2.2
      obtain ⟨hw, hhanded⟩ := hown _ now m hm (hwaits _ _ hkept ht.1)
      refine ⟨hw, ?_⟩
      show ours _ _ (receive R now (expireSeen R now t) m).handed = _
      rw [hhanded, hkept.handed, ht.2]
    · have hkept := kept_step hok fun now m hx hm => hof ⟨now, m, hm, hx⟩
      exact ⟨hwaits _ _ hkept ht.1, hkept.handed.trans ht.2⟩
  exact hinv.2

theorem gathers_whole (ha : Authored R a) (h : a.encode R.chrono data = .ok full) (hlen : full.length ≤ maxFrame)
    (hreadable : a.Readable) (hkind : a.kind ≠ chunkType) :
    Gathers R a data [full] (fun s => R.cache.expiry s.seen (R.eventIdentity a.source a.id) = none) fun _ _ => False where
  waits s t hkept hs := hkept.expiry.trans hs
  got _ _ _ _ hgot := hgot
  lacks s _ := ⟨full, List.mem_singleton_self _, not_false⟩
  own s now m hm hroom hs := by
    cases List.mem_singleton.mp hm
    rw [receive_whole ha h hlen hreadable hkind]
    exact Or.inr (arrived_finish ha.sequence hs hroom)
  known s now m before hm hs := by
    cases List.mem_singleton.mp hm
    rw [receive_whole ha h hlen hreadable hkind]
    exact finish_of_seen hs.seen

theorem not_waiting_of_held (hne : pieces ≠ []) (hheld : ∀ i < pieces.length, Held a s i) : ¬ Waiting R a pieces s := by
  intro hs
  obtain ⟨asm, -, hasm, -⟩ := hheld 0 (List.length_pos_iff.mpr hne)
  obtain ⟨hfilled, hlacks⟩ := hs.unfinished asm hasm
  obtain ⟨j, hj, hnone⟩ := List.mem_iff_getElem.mp hlacks
  obtain ⟨asm', piece, hasm', hpiece⟩ := hheld j (by rw [← hfilled.length]; exact hj)
  rw [hasm] at hasm'
  cases hasm'
  rw [List.getElem?_eq_getElem hj, hnone] at hpiece
  cases hpiece

theorem gathers_chunks (ha : Authored R a) (h : a.encode R.chrono data = .ok full)
    (hlen : full.length ≤ maxFrame * parts) (hchunks : Chunks R.chrono a full pieces messages) (hreadable : a.Readable) :
    Gathers R a data messages (Waiting R a pieces) fun s m => ∀ i piece, pieces[i]? = some piece →
      (a.chunk i).encode R.chrono (chunkBody.enc (i, pieces.length, piece)) = .ok m → Held a s i where
  waits s t hkept hs := hkept.waiting hs
  got s t m hkept hgot i piece hpiece hok := hkept.held (hgot i piece hpiece hok)
  lacks s hs := by
    by_contra hall
    push Not at hall
    refine not_waiting_of_held hchunks.nonempty (fun i hi => ?_) hs
    have hpiece := List.getElem?_eq_getElem hi
    obtain ⟨m, hm, hok⟩ := hchunks.covered i _ hpiece
    exact hall m hm i _ hpiece hok
  own s now m hm hroom hs := by
    by_cases harrived : Arrived R a data (ours a.source a.id s.handed) (receive R now s m)
    · exact Or.inr harrived
    -- a message completes the event, or is one of its pieces whichever it is taken for
    have hpiece : ∀ i piece, pieces[i]? = some piece →
        (a.chunk i).encode R.chrono (chunkBody.enc (i, pieces.length, piece)) = .ok m →
        Waiting R a pieces (receive R now s m) ∧ (receive R now s m).handed = s.handed ∧ Held a (receive R now s m) i ∧
          (∀ j, Held a s j → Held a (receive R now s m) j) := by
      intro i piece hpiece hok
      refine (receive_chunk_waiting ha hchunks hm hpiece hok hs).resolve_right fun hlast => harrived ?_
      rw [hlast, wholeOf_readable ha h hlen hreadable]
      exact @arrived_finish σ κ _ R (putAssembly s (a.source, a.id) none) now a data ha.sequence hs.unseen hroom
    obtain ⟨i, piece, hi, hok⟩ := hchunks.sent m hm
    obtain ⟨hw, hhanded, -, hold⟩ := hpiece i piece hi hok
    exact Or.inl ⟨hw, hhanded, fun j q hj hq => (hpiece j q hj hq).2.2.1,
      fun m' hgot j q hj hq => hold j (hgot j q hj hq)⟩
  known s now m before hm hs := receive_chunk_arrived ha hchunks hm hs

theorem waiting_receive_unreadable {m : Bytes} (ha : Authored R a) (h : a.encode R.chrono data = .ok full)
    (hlen : full.length ≤ maxFrame * parts) (hchunks : Chunks R.chrono a full pieces messages)
    (hunreadable : ¬ a.Readable) (hm : m ∈ messages) (hs : Waiting R a pieces s) :
    Waiting R a pieces (receive R now s m) ∧ (receive R now s m).handed = s.handed := by
  obtain ⟨i, piece, hpiece, hok⟩ := hchunks.sent m hm
  rcases receive_chunk_waiting ha hchunks hm hpiece hok hs with ⟨hw, hhanded, -⟩ | hlast
  · exact ⟨hw, hhanded⟩
  · rw [hlast, wholeOf_unreadable h hlen hunreadable]
    refine ⟨⟨hs.unseen, fun asm hasm => ?_⟩, rfl⟩
    rw [show (putAssembly s (a.source, a.id) none).assemblies (a.source, a.id) = none from
      Function.update_self _ _ _] at hasm
    cases hasm

end Runs

section Publications

variable {D : Desk} {ch : Channel} {event : Event} {author : Birth} {items : List (Nat × Item)}

/-- The application's texts can be read in a header, and a channel that is named as the chunks are has events of more than
one message only. -/
def Deliverable (chrono : Chrono) (a : Attributes) (data : Bytes) : Prop :=
  a.Readable ∧ (a.kind = chunkType → ∀ full, a.encode chrono data = .ok full → maxFrame < full.length)

/-- An event that was published without an error, each of whose messages arrives, in any order and however often, at a
receiver that knows nothing of it and is disturbed by nothing, is handed over once as it was published, of messages within
their bound, exactly when it is deliverable. -/
theorem published_event_arrives_iff (hauthor : ch.author = some author) (hchrono : R.chrono = D.chrono)
    (ha : Authored R (contextOf D ch author event)) (hpublish : (publish D ch event).2 = .ok messages)
    (hunseen : R.cache.expiry s.seen (R.eventIdentity author (D.mint ch.ids)) = none)
    (hnone : s.assemblies (author, D.mint ch.ids) = none)
    (hitems : ∀ m ∈ messages, ∃ now, (now, Item.message m) ∈ items)
    (hrun : RunOk (step R) (Undisturbed R author (D.mint ch.ids) messages) s items) :
    ((∀ m ∈ messages, m.length ≤ maxFrame) ∧
      ours author (D.mint ch.ids) (run R s items).handed = ours author (D.mint ch.ids) s.handed ++
        [⟨D.mint ch.ids, author, event.subject, event.sequence, D.now, event.dataschema, event.data⟩]) ↔
    Deliverable D.chrono (contextOf D ch author event) event.data := by
  obtain ⟨accepts, full, hfull, hsent⟩ := publish_eq_ok hauthor hpublish
  rw [← hchrono] at hfull hsent ⊢
  have hdropped : ours author (D.mint ch.ids) (run R s items).handed = ours author (D.mint ch.ids) s.handed →
      ¬ ours author (D.mint ch.ids) (run R s items).handed = ours author (D.mint ch.ids) s.handed ++
        [⟨D.mint ch.ids, author, event.subject, event.sequence, D.now, event.dataschema, event.data⟩] := by
    intro hsame hmore
    rw [hsame] at hmore
    simpa using congrArg List.length hmore
  rcases broadcastWholeOrChunks_eq_ok hsent with ⟨hlen, rfl⟩ | ⟨hlong, hlen, pieces, hchunks⟩
  · have hbound : ∀ m ∈ [full], m.length ≤ maxFrame := by
      intro m hm
      cases List.mem_singleton.mp hm
      exact hlen
    by_cases hgood : (contextOf D ch author event).Readable ∧ (contextOf D ch author event).kind ≠ chunkType
    · have harrived := arrived_run (gathers_whole ha hfull hlen hgood.1 hgood.2) hunseen hrun hitems
      exact iff_of_true ⟨hbound, harrived.handed⟩ ⟨hgood.1, fun hkind => absurd hkind hgood.2⟩
    · have hbad : ¬ (contextOf D ch author event).Readable ∨ (contextOf D ch author event).kind = chunkType := by
        rw [not_and_or, not_not] at hgood
        exact hgood
      have hsame := @dropped_run σ κ _ R s [full] (contextOf D ch author event) items (fun _ => True)
        (fun _ _ _ _ => trivial) (fun t now m hm _ => by
          cases List.mem_singleton.mp hm
          rw [receive_undeliverable ha hfull hlen hbad]
          exact ⟨trivial, rfl⟩) trivial hrun
      refine iff_of_false (fun hall => hdropped hsame hall.2) fun hdeliverable => ?_
      have hshort := hdeliverable.2 (hbad.resolve_left (not_not.mpr hdeliverable.1)) full hfull
      omega
  · have hwaiting : Waiting R (contextOf D ch author event) pieces s := by
      refine ⟨hunseen, fun asm hasm => ?_⟩
      cases hnone.symm.trans hasm
    by_cases hreadable : (contextOf D ch author event).Readable
    · have harrived := arrived_run (gathers_chunks ha hfull hlen hchunks hreadable) hwaiting hrun hitems
      refine iff_of_true ⟨hchunks.bound, harrived.handed⟩ ⟨hreadable, fun _ other hother => ?_⟩
      cases Except.ok.inj (hfull.symm.trans hother)
      exact hlong
    · have hsame := dropped_run (fun _ _ hkept hs => hkept.waiting hs)
        (fun t now m hm hs => waiting_receive_unreadable ha hfull hlen hchunks hreadable hm hs) hwaiting hrun
      exact iff_of_false (fun hall => hdropped hsame hall.2) fun hdeliverable => hreadable hdeliverable.1

end Publications

section Own

variable {source : Birth} {id : String} {messages : List Bytes} {items : List (Nat × Bytes)} {n : Nat}

/-- No more places of the queue are taken than these, and what is remembered is so for the whole retention at least. -/
structure Early (R : Reader σ κ) (n : Nat) (s : Inbox σ) : Prop where
  queued : s.queued ≤ n
  remembers : ∀ k e, R.cache.expiry s.seen k = some e → R.retention ≤ e

/-- A chunk moves assemblies only. -/
theorem takeChunk_seen (h : Gossip.Header) :
    (takeChunk R now s h).1.seen = s.seen ∧ (takeChunk R now s h).1.queued = s.queued := by
  have hassemble : ∀ key i n bytes, (assemble R now s key i n bytes).1.seen = s.seen ∧
      (assemble R now s key i n bytes).1.queued = s.queued := by
    intro key i n bytes
    unfold assemble
    dsimp only
    repeat' split
    all_goals exact ⟨rfl, rfl⟩
  unfold takeChunk
  split
  next => exact ⟨rfl, rfl⟩
  next =>
    split
    next => exact ⟨rfl, rfl⟩
    next =>
      split
      next => exact ⟨rfl, rfl⟩
      next => exact hassemble _ _ _ _

theorem Early.finish (hs : Early R n s) (h : Gossip.Header) : Early R (n + 1) (App.finish R now s h) := by
  unfold App.finish
  split
  next => exact ⟨Nat.le_succ_of_le hs.queued, hs.remembers⟩
  next =>
    split
    next => exact ⟨Nat.le_succ_of_le hs.queued, hs.remembers⟩
    next hunseen =>
      rw [R.cache.contains_eq, Bool.not_eq_true, Option.isSome_eq_false_iff, Option.isNone_iff_eq_none] at hunseen
      have hremembers : ∀ k e, R.cache.expiry (R.cache.insert s.seen (R.eventIdentity h.source h.id) (now + R.retention)) k =
          some e → R.retention ≤ e := by
        intro k e he
        rw [R.cache.expiry_insert _ _ _ _ hunseen] at he
        split at he
        next =>
          cases he
          exact Nat.le_add_left _ _
        next => exact hs.remembers k e he
      unfold deliver
      split
      next => exact ⟨Nat.succ_le_succ hs.queued, hremembers⟩
      next => exact ⟨Nat.le_succ_of_le hs.queued, hremembers⟩

theorem Early.receive (hs : Early R n s) (content : Bytes) : Early R (n + 1) (App.receive R now s content) := by
  have hmore : Early R (n + 1) s := ⟨Nat.le_succ_of_le hs.queued, hs.remembers⟩
  unfold App.receive
  split
  next => exact hmore
  next h hread =>
    obtain ⟨hseen, hqueued⟩ := @takeChunk_seen _ _ _ R s now h
    split
    next => exact hmore
    next =>
      split
      next =>
        split
        next t htaken =>
          rw [htaken] at hseen hqueued
          exact ⟨by rw [hqueued]; exact hmore.queued, by rw [hseen]; exact hmore.remembers⟩
        next t whole htaken =>
          rw [htaken] at hseen hqueued
          have ht : Early R n t := ⟨by rw [hqueued]; exact hs.queued, by rw [hseen]; exact hs.remembers⟩
          exact ht.finish whole
      next => exact hs.finish h

theorem Early.expireSeen (hs : Early R n s) (now : Nat) : Early R n (App.expireSeen R now s) := by
  refine ⟨hs.queued, ?_⟩
  intro k e he
  replace he : R.cache.expiry (R.cache.expireUntil s.seen now) k = some e := he
  rw [R.cache.expiry_expireUntil, Option.filter_eq_some_iff] at he
  exact hs.remembers k e he.1

/-- Deliveries of an event's own messages, no more than the queue has places and none as late as the retention, disturb it
by nothing. -/
theorem runOk_own (hs : Early R n s) (hroom : n + items.length ≤ queueCapacity)
    (hown : ∀ x ∈ items, x.2 ∈ messages ∧ x.1 < R.retention) :
    RunOk (step R) (Undisturbed R source id messages) s (items.map fun x => (x.1, .message x.2)) := by
  induction items generalizing n s with
  | nil => trivial
  | cons x items ih =>
    obtain ⟨hx, htime⟩ := hown x List.mem_cons_self
    rw [List.length_cons] at hroom
    refine ⟨⟨fun _ => ?_, fun hnot => absurd hx hnot, ?_⟩, ?_⟩
    · have hqueued := hs.queued
      omega
    · intro e he
      exact Nat.lt_of_lt_of_le htime (hs.remembers _ e he)
    · refine ih ((hs.expireSeen x.1).receive x.2) ?_ fun y hy => hown y (List.mem_cons_of_mem x hy)
      omega

end Own

/-- A cache as the map of its keys' expiries. -/
def mapCache (κ : Type) [DecidableEq κ] : TimeBoundCache (κ → Option Nat) κ where
  contains s k := (s k).isSome
  insert s k e := Function.update s k (some e)
  expireUntil s now k := (s k).filter (now < ·)
  expiry s k := s k
  contains_eq _ _ := rfl
  expiry_insert s k e j _ := by
    by_cases hjk : j = k
    · rw [hjk, Function.update_self, if_pos rfl]
    · rw [Function.update_of_ne hjk, if_neg hjk]
  expiry_expireUntil _ _ _ := rfl

def sampleReader : Reader (Birth × String → Option Nat) (Birth × String) where
  chrono := firstMs
  fabric := "1123456789ab"
  stalenessFloor := 6000
  retention := 30000
  eventIdentity := Prod.mk
  cache := mapCache _

def sampleDesk : Desk := ⟨firstMs, fun _ => "0123456789abcdef0123456789abcdef", 1, ⟨none, none⟩⟩

def sampleChannel : Channel :=
  ⟨false, some ⟨"1123456789ab", "0123456789ab", "yrz49j303yh4"⟩, some fun _ => true, "app.test", 0⟩

def sampleKey : Birth × String :=
  (⟨"1123456789ab", "0123456789ab", "yrz49j303yh4"⟩, "0123456789abcdef0123456789abcdef")

def emptyInbox : Inbox (Birth × String → Option Nat) := ⟨fun _ => none, fun _ => none, 0, 0, []⟩

theorem early_emptyInbox : Early sampleReader 0 emptyInbox := ⟨Nat.le_refl _, fun _ _ he => nomatch he⟩

/-- An event of two messages. -/
def longEvent : Event := ⟨"row/1", some 7, some "app.v1", List.replicate 4100 7⟩

theorem published_event_arrives_long :
    ∃ messages, (publish sampleDesk sampleChannel longEvent).2 = .ok messages ∧ messages.length = 2 ∧
      ours sampleKey.1 sampleKey.2 (run sampleReader emptyInbox
        ((messages.reverse ++ messages).map fun m => (5, .message m))).handed =
          [⟨sampleKey.2, sampleKey.1, "row/1", some 7, 1, some "app.v1", longEvent.data⟩] := by
  obtain ⟨messages, hpublish, hlength⟩ : ∃ messages, (publish sampleDesk sampleChannel longEvent).2 = .ok messages ∧
      messages.length = 2 := by
    have hcount : (publish sampleDesk sampleChannel longEvent).2.toOption.map List.length = some 2 := by decide +kernel
    cases hpublish : (publish sampleDesk sampleChannel longEvent).2 with
    | error e =>
      rw [hpublish] at hcount
      cases hcount
    | ok messages =>
      rw [hpublish] at hcount
      exact ⟨messages, rfl, Option.some.inj hcount⟩
  have htime : firstMs.Keeps 1 := by
    intro text htext
    cases htext
    decide
  have ha : Authored sampleReader (contextOf sampleDesk sampleChannel sampleKey.1 longEvent) :=
    ⟨⟨by decide, by decide, by decide⟩, rfl, by unfold Minted; decide +kernel, htime, fun n hn => by cases hn; decide⟩
  have hrun : RunOk (step sampleReader) (Undisturbed sampleReader sampleKey.1 sampleKey.2 messages) emptyInbox
      ((messages.reverse ++ messages).map fun m => (5, .message m)) := by
    have hown := @runOk_own _ _ _ sampleReader emptyInbox sampleKey.1 sampleKey.2 messages
      ((messages.reverse ++ messages).map (Prod.mk 5)) 0 early_emptyInbox
    rw [List.map_map] at hown
    refine hown ?_ ?_
    · rw [List.length_map, List.length_append, List.length_reverse, hlength]
      decide
    · intro x hx
      obtain ⟨m, hm, rfl⟩ := List.mem_map.mp hx
      exact ⟨(List.mem_append.mp hm).elim List.mem_reverse.mp id, show 5 < 30000 by decide⟩
  have hdeliverable : Deliverable sampleDesk.chrono (contextOf sampleDesk sampleChannel sampleKey.1 longEvent)
      longEvent.data := by
    refine ⟨⟨by decide, by decide, ?_⟩, fun hkind => absurd hkind (by decide)⟩
    intro schema hschema
    cases hschema
    decide
  have hitems : ∀ m ∈ messages, ∃ now, (now, Item.message m) ∈ (messages.reverse ++ messages).map fun m => (5, .message m) :=
    fun m hm => ⟨5, List.mem_map.mpr ⟨m, List.mem_append_right _ hm, rfl⟩⟩
  exact ⟨messages, hpublish, hlength,
    ((published_event_arrives_iff rfl rfl ha hpublish rfl rfl hitems hrun).mpr hdeliverable).2⟩

theorem runOk_twice (m : Bytes) : RunOk (step sampleReader) (Undisturbed sampleReader sampleKey.1 sampleKey.2 [m])
    emptyInbox [(0, .message m), (5, .message m)] := by
  refine @runOk_own _ _ _ sampleReader emptyInbox sampleKey.1 sampleKey.2 [m] [(0, m), (5, m)] 0 early_emptyInbox
    (by simp [queueCapacity]) ?_
  simp [sampleReader]

def sampleMessage (event : Event) : Bytes :=
  match (publish sampleDesk sampleChannel event).2 with
  | .ok messages => messages.flatten
  | .error _ => []

/-- An event's one message, twice. -/
def sampleItems (event : Event) : List (Nat × Item) :=
  [(0, .message (sampleMessage event)), (5, .message (sampleMessage event))]

/-- An event of no subject. -/
def subjectlessEvent : Event := ⟨"", some 7, some "app.v1", [0, 1, 255]⟩

/-- Publishing an event of no subject is answered with no error, and no receiver hands it over. -/
theorem subjectless_event_lost :
    (publish sampleDesk sampleChannel subjectlessEvent).2 = .ok [sampleMessage subjectlessEvent] ∧
    RunOk (step sampleReader) (Undisturbed sampleReader sampleKey.1 sampleKey.2 [sampleMessage subjectlessEvent]) emptyInbox
      (sampleItems subjectlessEvent) ∧
    (run sampleReader emptyInbox (sampleItems subjectlessEvent)).handed = [] := by
  exact ⟨by decide +kernel, runOk_twice _, by decide +kernel⟩

end DistributedMesh.App
