import DistributedMesh.Envelope

namespace DistributedMesh.Gossip

open ByteFormats
open Framing (Bytes)

/-- The attributes and the data beside them say exactly this header. -/
structure Describes (chrono : Chrono) (pairs : List (String × String)) (data : Bytes) (h : Header) : Prop where
  names : ∀ p ∈ pairs, attributeName p.1 = true
  texts : ∀ p ∈ pairs, p.1 ≠ "traceparent" → p.1 ≠ "tracestate" → attributeText p.2 = true
  distinct : (pairs.map Prod.fst).Nodup
  specversion : pairs.lookup "specversion" = some "1.0"
  datacontenttype : pairs.lookup "datacontenttype" = some "application/octet-stream"
  source : ∃ uri, uri ≠ "" ∧ pairs.lookup "source" = some uri ∧ Birth.parse uri = .ok h.source
  id : h.id ≠ "" ∧ pairs.lookup "id" = some h.id
  kind : h.kind ≠ "" ∧ pairs.lookup "type" = some h.kind
  subject : h.subject ≠ "" ∧ pairs.lookup "subject" = some h.subject
  time : ∃ text, text ≠ "" ∧ pairs.lookup "time" = some text ∧ dateMs chrono text = .ok h.timeMs
  sequence : pairs.lookup "sequence" = h.sequence
  sequencetype : pairs.lookup "sequencetype" = none
  dataschema : pairs.lookup "dataschema" = h.dataschema
  data : data = h.data

variable {chrono : Chrono} {pairs a b : List (String × String)} {data : Bytes} {h : Header} {name value : String}

theorem message_readsAs {pairs : List (String × String)} (hcount : pairs.length < 2 ^ 64) (data : Bytes) :
    message.ReadsAs (pairs, data) (pairs, data) := by
  refine Format.readsAs_pair (Format.readsAs_list ?_ hcount) (Format.readsAs_format _ _)
  rw [List.forall₂_same]
  exact fun p _ => Format.readsAs_pair (Format.readsAs_format _ _) (Format.readsAs_format _ _)

theorem bind_eq_ok_iff {ε α β : Type} {x : Except ε α} {f : α → Except ε β} {y : β} :
    (x >>= f) = .ok y ↔ ∃ a, x = .ok a ∧ f a = .ok y := by
  cases x with
  | error e => simp [bind, Except.bind]
  | ok a => simp [bind, Except.bind]

theorem lookup_snoc_eq_none_iff {key : String} :
    (a ++ [(name, value)]).lookup key = none ↔ a.lookup key = none ∧ key ≠ name := by
  simp [List.lookup_append]

theorem collect_eq_ok_iff : collect a pairs = .ok b ↔
    (∀ p ∈ pairs, attributeName p.1 = true) ∧
    (∀ p ∈ pairs, p.1 ≠ "traceparent" → p.1 ≠ "tracestate" → attributeText p.2 = true) ∧
    (pairs.map Prod.fst).Nodup ∧ (∀ p ∈ pairs, a.lookup p.1 = none) ∧ b = a ++ pairs := by
  induction pairs generalizing a with
  | nil =>
    rw [collect, Except.ok.injEq]
    simp [@eq_comm _ a b]
  | cons p pairs ih =>
    obtain ⟨name, value⟩ := p
    unfold collect
    split
    next hname => simp [hname]
    next hname =>
      split
      next htext =>
        simp only [reduceCtorEq, false_iff]
        intro hall
        have hbad := hall.2.1 _ List.mem_cons_self htext.1 htext.2.1
        rw [htext.2.2] at hbad
        cases hbad
      next htext =>
        split
        next hheld =>
          simp only [reduceCtorEq, false_iff]
          intro hall
          rw [hall.2.2.2.1 _ List.mem_cons_self] at hheld
          cases hheld
        next hheld =>
          rw [Option.not_isSome_iff_eq_none] at hheld
          have hname : attributeName name = true := by simpa using hname
          have htext : name ≠ "traceparent" → name ≠ "tracestate" → attributeText value = true := by
            intro hparent hstate
            by_contra hbad
            exact htext ⟨hparent, hstate, by simpa using hbad⟩
          rw [ih]
          simp only [List.forall_mem_cons, List.map_cons, List.nodup_cons, lookup_snoc_eq_none_iff, hname, hheld,
            List.append_assoc, List.singleton_append, true_and, List.mem_map, not_exists, not_and]
          constructor
          · rintro ⟨hnames, htexts, hnodup, hfresh, hb⟩
            exact ⟨hnames, ⟨htext, htexts⟩, ⟨fun p hp => (hfresh p hp).2, hnodup⟩, fun p hp => (hfresh p hp).1, hb⟩
          · rintro ⟨hnames, ⟨-, htexts⟩, ⟨hother, hnodup⟩, hfresh, hb⟩
            exact ⟨hnames, htexts, hnodup, fun p hp => ⟨hfresh p hp, hother p hp⟩, hb⟩

theorem required_eq_ok_iff : required a name = .ok value ↔ value ≠ "" ∧ a.lookup name = some value := by
  unfold required
  cases hlookup : a.lookup name with
  | none => simp
  | some held =>
    rw [Option.filter_some]
    by_cases hempty : held = ""
    · rw [if_neg (by simpa using hempty)]
      simp only [reduceCtorEq, Option.some.injEq, false_iff, not_and]
      intro hvalue heq
      exact hvalue (heq ▸ hempty)
    · rw [if_pos (by simpa using hempty)]
      simp only [Except.ok.injEq, Option.some.injEq]
      constructor
      · rintro rfl
        exact ⟨hempty, rfl⟩
      · exact fun hvalue => hvalue.2

theorem requiredAs_eq_ok_iff {u : Unit} : requiredAs a name value = .ok u ↔ required a name = .ok value := by
  unfold requiredAs
  rw [bind_eq_ok_iff]
  constructor
  · rintro ⟨held, hheld, hvalue⟩
    split at hvalue
    next => cases hvalue
    next heq =>
      rw [not_not] at heq
      rw [hheld, heq]
  · intro hvalue
    exact ⟨value, hvalue, if_neg fun hne => hne rfl⟩

theorem sequencetypeUnset_eq_ok_iff {u : Unit} : sequencetypeUnset a = .ok u ↔ a.lookup "sequencetype" = none := by
  unfold sequencetypeUnset
  cases a.lookup "sequencetype" with
  | none => simp
  | some held => simp

/-- A header is read of the attributes that say it, and of no others. -/
theorem headerOf_eq_ok_iff : headerOf chrono pairs data = .ok h ↔ Describes chrono pairs data h := by
  unfold headerOf
  simp only [bind_eq_ok_iff, requiredAs_eq_ok_iff, sequencetypeUnset_eq_ok_iff, required_eq_ok_iff]
  constructor
  · rintro ⟨a, hcollect, -, ⟨-, hversion⟩, -, ⟨-, hcontent⟩, uri, ⟨huri, hsource⟩, source, hparse, id, hid, kind, hkind,
      subject, hsubject, text, ⟨htext, htime⟩, timeMs, hdate, -, htype, hh⟩
    obtain ⟨hnames, htexts, hdistinct, -, rfl⟩ := collect_eq_ok_iff.mp hcollect
    cases hh
    exact ⟨hnames, htexts, hdistinct, hversion, hcontent, ⟨uri, huri, hsource, hparse⟩, hid, hkind, hsubject,
      ⟨text, htext, htime, hdate⟩, rfl, htype, rfl, rfl⟩
  · intro hd
    obtain ⟨uri, huri, hsource, hparse⟩ := hd.source
    obtain ⟨text, htext, htime, hdate⟩ := hd.time
    refine ⟨pairs, collect_eq_ok_iff.mpr ⟨hd.names, hd.texts, hd.distinct, fun _ _ => rfl, rfl⟩, (),
      ⟨by decide, hd.specversion⟩, (), ⟨by decide, hd.datacontenttype⟩, uri, ⟨huri, hsource⟩, h.source, hparse, h.id, hd.id,
      h.kind, hd.kind, h.subject, hd.subject, text, ⟨htext, htime⟩, h.timeMs, hdate, (), hd.sequencetype, ?_⟩
    rw [hd.sequence, hd.dataschema, hd.data]
    rfl

end DistributedMesh.Gossip
