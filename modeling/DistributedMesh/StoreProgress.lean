import DistributedMesh.StoreAppend

namespace DistributedMesh

open Interleaving

variable {ι Value : Type} {log : StoreLog Value} {p : Pending}

/-- An object some offset verifies. -/
def Verifies (log : StoreLog Value) (seg : Bytes) : Prop :=
  ∃ at_ l, verify log.serde log.formats seg at_ = .ok l

theorem lineOfEnvelope_offset {formats : Formats Value} {obj : Bytes} {offset offset' len : Nat}
    {env : Envelope Value} {l : Line Value}
    (h : lineOfEnvelope formats obj offset len env = .ok l) :
    ∃ l', lineOfEnvelope formats obj offset' len env = .ok l' := by
  unfold lineOfEnvelope at h ⊢
  split at h
  next => simp at h
  next hlen =>
    rw [if_neg hlen]
    split at h
    next => simp at h
    next hspec =>
      simp only [if_neg hspec]
      split at h
      next => simp at h
      next => exact ⟨_, rfl⟩

theorem verify_offset {seg : Bytes} {at_ : Nat} {l : Line Value}
    (h : verify log.serde log.formats seg at_ = .ok l) (offset : Nat) :
    ∃ l', verify log.serde log.formats seg offset = .ok l' := by
  unfold verify at h ⊢
  split at h
  next => simp at h
  next hb =>
    rw [if_neg hb]
    split at h
    next => simp at h
    next len hlen =>
      split at h
      next => simp at h
      next hl =>
        split at h
        next => simp at h
        next hc =>
          split at h
          next => simp at h
          next hcrc =>
            split at h
            next => simp at h
            next env henv =>
              simp only [if_neg hl, if_neg hc]
              exact lineOfEnvelope_offset h

theorem malformed_of_verifies {seg : Bytes} (h : Verifies log seg) (at_ : Nat) :
    log.malformed seg at_ = none := by
  obtain ⟨a, l, hl⟩ := h
  obtain ⟨l', hl'⟩ := verify_offset hl at_
  unfold StoreLog.malformed
  split
  next => rfl
  next => simp [hl']

/-- After the offset the append reconciles from, every segment but its own verifies, and nothing
short of its object stands. -/
structure Clear (log : StoreLog Value) (p : Pending) (file : Bytes) : Prop where
  verifies : ∀ seg ∈ segments (file.drop p.start), seg ≠ [] → seg ≠ p.obj → Verifies log seg
  whole : ∀ seg ∈ segments (file.drop p.start), seg ≠ [] → seg <+: p.obj → seg = p.obj

/-- Reconciling a clear file finds the object where it stands, and answers `absent` elsewhere. -/
theorem reconcileLoop_clear {bytes : Bytes} (at_ : Nat)
    (hv : ∀ seg ∈ segments bytes, seg ≠ [] → seg ≠ p.obj → Verifies log seg)
    (hw : ∀ seg ∈ segments bytes, seg ≠ [] → seg <+: p.obj → seg = p.obj) :
    (p.obj ∈ segments bytes → ∃ a ended, log.reconcileLoop p bytes at_ = log.finish p a ended) ∧
    (p.obj ∉ segments bytes → log.reconcileLoop p bytes at_ = .ret (.ok .absent)) := by
  have hskip : ∀ seg ∈ segments bytes, seg ≠ p.obj → ∀ a,
      ¬ (seg ≠ [] ∧ seg <+: p.obj) ∧ log.malformed seg a = none := by
    intro seg hm hne a
    refine ⟨fun h => hne (hw seg hm h.1 h.2), ?_⟩
    by_cases hb : seg = []
    · rw [StoreLog.malformed, if_pos hb]
    · exact malformed_of_verifies (hv seg hm hb hne) a
  clear hv hw
  induction bytes using lines_induct generalizing at_ with
  | unended x hx =>
    rw [reconcileLoop_unended hx]
    rw [segments_unbroken hx] at hskip ⊢
    by_cases he : x = p.obj
    · rw [if_pos he]
      exact ⟨fun _ => ⟨at_, false, rfl⟩, fun hn => absurd he.symm (by simpa using hn)⟩
    · obtain ⟨hpre, hmal⟩ := hskip x (by simp) he at_
      rw [if_neg he, if_neg hpre, hmal]
      exact ⟨fun hm => absurd (List.mem_singleton.mp hm).symm he, fun _ => rfl⟩
  | line seg rest hs ih =>
    rw [reconcileLoop_line rest hs]
    rw [segments_line rest hs] at hskip ⊢
    by_cases he : seg = p.obj
    · rw [if_pos he]
      exact ⟨fun _ => ⟨at_, true, rfl⟩, fun hn => absurd he.symm fun h => hn (by simp [h])⟩
    · obtain ⟨hpre, hmal⟩ := hskip seg (by simp) he at_
      rw [if_neg he, if_neg hpre, hmal]
      obtain ⟨hin, hout⟩ := ih (at_ + (seg.length + 1)) fun x hx => hskip x (List.mem_cons_of_mem _ hx)
      refine ⟨fun hm => hin ?_, fun hn => hout fun hm => hn (List.mem_cons_of_mem _ hm)⟩
      exact (List.mem_cons.mp hm).resolve_left fun h => he h.symm

/-- What another writer puts when all its writes are whole: a newline, or a line that verifies. -/
def WholePut (log : StoreLog Value) (p : Pending) (w : Bytes) : Prop :=
  w = [newline] ∨ ∃ obj, obj ≠ p.obj ∧ newline ∉ obj ∧ Verifies log obj ∧ w = lineOf obj

/-- The file grows by whole lines of other writers, and a folded handle stays folded. -/
def QuietGrowth (log : StoreLog Value) (p : Pending) (s t : View Value) : Prop :=
  (∃ ws : List Bytes, (∀ w ∈ ws, WholePut log p w) ∧ t.file = s.file ++ ws.flatten) ∧
    (s.inner.folded = true → t.inner.folded = true)

theorem Verifies.framed {obj : Bytes} (h : Verifies log obj) (hn : newline ∉ obj) : Framed obj := by
  obtain ⟨a, l, hl⟩ := h
  exact verify_framed hl hn

theorem QuietGrowth.grows {s t : View Value} (h : QuietGrowth log p s t) :
    Grows (· ≠ p.obj) s.file t.file := by
  obtain ⟨⟨ws, hw, hf⟩, _⟩ := h
  refine ⟨ws, fun w hm => ?_, hf⟩
  rcases hw w hm with rfl | ⟨obj, hne, hn, hv, rfl⟩
  · exact Or.inl (List.prefix_refl _)
  · exact Or.inr ⟨obj, hne, hv.framed hn, List.prefix_refl _⟩

theorem Clear.put {file w : Bytes} (h : Clear log p file) (hp : Framed p.obj)
    (hle : p.start ≤ file.length) (hw : WholePut log p w) : Clear log p (file ++ w) := by
  have hseg : ∀ seg ∈ segments ((file ++ w).drop p.start), seg ≠ [] →
      seg ∈ segments (file.drop p.start) ∨
        (seg ≠ p.obj ∧ Verifies log seg ∧ newline ∉ seg) := by
    intro seg hm hb
    rw [List.drop_append_of_le_length hle] at hm
    rcases hw with rfl | ⟨obj, hne, hn, hv, rfl⟩
    · rw [segments_append_newline, List.mem_append] at hm
      refine hm.imp_right fun hm => absurd ?_ hb
      simpa [segments] using hm
    · rw [lineOf, segments_append_newline, segments_ended hn, List.mem_append] at hm
      refine hm.imp_right fun hm => ?_
      have he : seg = obj := by simpa [hb] using hm
      rw [he]
      exact ⟨hne, hv, hn⟩
  refine ⟨fun seg hm hb hne => ?_, fun seg hm hb hpre => ?_⟩
  · exact (hseg seg hm hb).elim (fun h' => h.verifies seg h' hb hne) fun h' => h'.2.1
  · rcases hseg seg hm hb with h' | ⟨_, hv, hn⟩
    · exact h.whole seg h' hb hpre
    · exact (hv.framed hn).eq_of_extends hp hpre

theorem Clear.grows {s t : View Value} (h : Clear log p s.file) (hp : Framed p.obj)
    (hle : p.start ≤ s.file.length) (hg : QuietGrowth log p s t) : Clear log p t.file := by
  obtain ⟨⟨ws, hw, hf⟩, -⟩ := hg
  rw [hf]
  clear hf
  induction ws generalizing s with
  | nil => simpa using h
  | cons w ws ih =>
    have hput := h.put hp hle (hw w (by simp))
    rw [List.flatten_cons, ← List.append_assoc]
    refine ih (s := { s with file := s.file ++ w }) hput ?_ fun x hx => hw x (by simp [hx])
    simp only [List.length_append]
    omega

/-- A disk on which every call answers in full, beside writers whose writes are whole. -/
def quietContract (log : StoreLog Value) (p : Pending) : Contract Outcome (View Value) where
  rely := QuietGrowth log p
  guar _ _ := True
  fault f := f = .whole
  waits := False
  rely_refl s := ⟨⟨[], by simp, by simp⟩, id⟩
  rely_trans h h' := by
    obtain ⟨⟨ws, hw, hf⟩, hd⟩ := h
    obtain ⟨⟨ws', hw', hf'⟩, hd'⟩ := h'
    refine ⟨⟨ws ++ ws', fun w hm => ?_, by rw [hf', hf]; simp⟩, hd' ∘ hd⟩
    exact (List.mem_append.mp hm).elim (hw w) (hw' w)

theorem finish_quiet {v : View Value} (a : Nat) (ended : Bool) :
    (log.finish p a ended).Safe DiskOp.step (quietContract log p) (fun r _ => r = .ok .done) v := by
  unfold StoreLog.finish
  split
  next =>
    rintro t _ f rfl
    exact ⟨trivial, fun _ _ => rfl⟩
  next =>
    rintro t _ f rfl
    refine ⟨trivial, ?_⟩
    rintro t _ f rfl
    exact ⟨trivial, fun _ _ => rfl⟩

theorem writePending_quiet {v : View Value} (q : Pending) (zeros : Nat) :
    (log.writePending q zeros).Safe DiskOp.step (quietContract log p)
      (fun out _ => out = (none, .ok ())) v := by
  rw [StoreLog.writePending]
  rintro t _ f rfl
  refine ⟨trivial, ?_⟩
  change Program.Safe _ _
    (if (lineOf q.obj).length = (lineOf q.obj).length then _ else _) _ _
  rw [if_pos rfl]
  rintro t _ f rfl
  exact ⟨trivial, fun _ _ => rfl⟩

/-- On a quiet disk settling fails exactly where the write reported one byte, the leading newline. -/
theorem settle_quiet {v : View Value} (hok : PendingOk p v.file) (hclear : Clear log p v.file) :
    (log.settle (some p)).Safe DiskOp.step (quietContract log p)
      (fun out _ => (p.reported ≠ 1 → out = (none, .ok ())) ∧
        (p.reported = 1 → ∃ e, out.2 = .error e)) v := by
  rw [StoreLog.settle]
  rintro t ht f rfl
  refine ⟨trivial, ?_⟩
  have hokt := hok.grows (fun h => h rfl) ht.grows
  have hcleart := hclear.grows hok.framed hok.cut.1 ht
  obtain ⟨hin, hout⟩ := reconcileLoop_clear p.start hcleart.verifies hcleart.whole
  change Program.Safe _ _ (log.reconcileLoop p (t.file.drop p.start) p.start >>= _) _ _
  by_cases hm : p.obj ∈ segments (t.file.drop p.start)
  · have hne : p.reported ≠ 1 := by
      intro h1
      rcases hokt.told with h0 | ⟨_, habs⟩ | ⟨h2, _⟩
      · omega
      · exact habs ((mem_segments_cut hokt.cut hokt.framed.ne_nil).mpr (Or.inr hm))
      · omega
    obtain ⟨a, ended, hr⟩ := hin hm
    rw [hr]
    refine Program.Safe.bind ((finish_quiet a ended).mono ?_)
    rintro r u rfl
    exact fun _ _ => ⟨fun _ => rfl, fun h => absurd h hne⟩
  · rw [hout hm]
    change Program.Safe _ _ (if p.reported = 0 then _ else _) _ _
    by_cases h0 : p.reported = 0
    · rw [if_pos h0]
      refine (writePending_quiet p 0).mono ?_
      rintro out u rfl
      exact ⟨fun _ => rfl, fun h1 => absurd h1 (by omega)⟩
    · rw [if_neg h0]
      have h1 : p.reported = 1 := by
        rcases hokt.told with h | ⟨h1, _⟩ | ⟨h2, hst⟩
        · exact absurd h h0
        · exact h1
        · have hpos := List.length_pos_iff.mpr hokt.framed.ne_nil
          have hb : p.obj.take (p.reported - 1) ≠ [] := by
            rw [← List.length_pos_iff, List.length_take]
            omega
          have he := hcleart.whole _ hst hb (List.take_prefix _ _)
          exact absurd (he ▸ hst) hm
      exact fun _ _ => ⟨fun hne => absurd h1 hne, fun _ => ⟨_, rfl⟩⟩

theorem appendNew_quiet {v : View Value} {id : String} {obj : Bytes}
    (hok : PendingOk p v.file) (hclear : Clear log p v.file) :
    (log.appendNew (some p) id obj).Safe DiskOp.step (quietContract log p)
      (fun out _ => out.2 = .ok () ↔ p.reported ≠ 1) v := by
  refine Program.Safe.bind ((settle_quiet hok hclear).mono ?_)
  rintro ⟨left, r⟩ t ⟨hgo, hstuck⟩
  by_cases h1 : p.reported = 1
  · obtain ⟨e, he⟩ := hstuck h1
    cases he
    exact fun _ _ => by simp [h1]
  · cases hgo h1
    have hwrite : ∀ (start : Nat) (u : View Value),
        (log.writePending ⟨id, obj, start, 0⟩ 0).Safe DiskOp.step (quietContract log p)
          (fun out _ => out.2 = .ok () ↔ p.reported ≠ 1) u := by
      refine fun start u => (writePending_quiet _ 0).mono ?_
      rintro out w rfl
      simp [h1]
    dsimp only
    split
    next =>
      rintro u _ f rfl
      exact ⟨trivial, hwrite _ u⟩
    next =>
      rintro u _ f rfl
      exact ⟨trivial, hwrite _ u⟩

theorem appendObject_quiet {v : View Value} (id : String) (obj : Bytes)
    (hok : PendingOk p v.file) (hclear : Clear log p v.file)
    (hf : log.appends = true ∨ v.inner.folded = true) :
    (log.appendObject (some p) id obj).Safe DiskOp.step (quietContract log p)
      (fun out _ => out.2 = .ok () ↔ p.reported ≠ 1) v := by
  rw [StoreLog.appendObject, StoreLog.foldBeforeAppend]
  by_cases ha : log.appends = true
  · rw [if_pos ha]
    exact appendNew_quiet hok hclear
  · rw [if_neg ha]
    rintro t ht f rfl
    refine ⟨trivial, ?_⟩
    change Program.Safe _ _ ((if t.inner.folded = true then
      (pure (.ok ()) : Disk Value (Except StorageError Unit)) else _) >>= _) _ _
    rw [if_pos (ht.2 (hf.resolve_left ha))]
    exact appendNew_quiet (hok.grows (fun h => h rfl) ht.grows)
      (hclear.grows hok.framed hok.cut.1 ht)

variable [DecidableEq ι]

/-- Once the disk is quiet, the next append on a handle with a pending one answers `Ok` exactly
where the pending append's last write did not report its leading newline alone. -/
theorem append_after_fault_iff {logs : ι → StoreLog Value} {file : Bytes} {events : List (Event ι)}
    {store : Store ι Value} {i : ι} {p : Pending} (id : String) (obj : Object)
    {env : Nat → View Value → View Value}
    (hrun : (Store.opened file logs).run events = some store) (hd : (appended events).Nodup)
    (hfresh : ∀ obj ∈ appended events, obj ∉ segments file)
    (hidle : (store.handle i).appending = none) (hp : (store.handle i).pending = some p)
    (hclear : Clear (store.handle i).log p store.file)
    (henv : ∀ n v, QuietGrowth (store.handle i).log p v (env n v)) :
    ∃ left r v, ((store.handle i).log.appendObject (some p) id obj.1).run DiskOp.step env
        (fun _ => .whole) 0 ((store.handle i).view store.file) = some ((left, r), v) ∧
      (r = .ok () ↔ p.reported ≠ 1) := by
  have hok := run_ok (StoreOk.opened file logs) hrun (by simpa using hd) hfresh
  obtain ⟨hpok, hf⟩ := ((hok.handles i).idle hidle).unproven p hp
  have hsafe := appendObject_quiet id obj.1 hpok hclear hf
  obtain ⟨⟨left, r⟩, v, hr, hpost⟩ := hsafe.run not_false env (fun _ => .whole) henv (fun _ => rfl) 0
  exact ⟨left, r, v, hr, hpost⟩

/-- A handle's one append, its write ending as `write` and the disk call after it as `after`. -/
def faultedAppend (write after : Outcome) : List (Event Bool) :=
  [.append true "a" tinyObject, .appender true .whole, .appender true write,
    .appender true after, .appender true .whole]

def tinyNext : Object := ⟨utf8 "\x7b\"len\":11 \x7d", by decide⟩

theorem append_after_failed_sync : ∃ store : Store Bool Unit, ∃ left v,
    (Store.opened [] fun _ => appendLog).run (faultedAppend .whole (.failed 0 "disk")) = some store ∧
    ((store.handle true).log.appendObject (store.handle true).pending "b" tinyNext.1).run DiskOp.step
      (fun _ v => v) (fun _ => .whole) 0 ((store.handle true).view store.file) =
        some ((left, .ok ()), v) := by
  have hrun : ((Store.opened [] fun _ : Bool => appendLog).run
      (faultedAppend .whole (.failed 0 "disk"))).map (fun store =>
        ((store.handle true).appending.isNone, (store.handle true).pending, store.file)) =
      some (true, some ⟨"a", tinyObject.1, 0, 12⟩, lineOf tinyObject.1) := by decide +kernel
  obtain ⟨store, hs, hmap⟩ := Option.map_eq_some_iff.mp hrun
  simp only [Prod.mk.injEq, Option.isNone_iff_eq_none] at hmap
  obtain ⟨hidle, hp, hfile⟩ := hmap
  have hsegs : ∀ seg ∈ segments (store.file.drop 0), seg ≠ [] → seg = tinyObject.1 := by
    rw [hfile]
    decide
  have hclear : Clear (store.handle true).log ⟨"a", tinyObject.1, 0, 12⟩ store.file :=
    ⟨fun seg hm hb hne => absurd (hsegs seg hm hb) hne, fun seg hm hb _ => hsegs seg hm hb⟩
  obtain ⟨left, r, v, hr, hiff⟩ := append_after_fault_iff "b" tinyNext hs (by decide)
    (by decide) hidle hp hclear (fun _ _ => (quietContract _ _).rely_refl _)
  have hrok : r = .ok () := hiff.mpr (by decide)
  refine ⟨store, left, v, hs, ?_⟩
  rw [hp, ← hrok]
  exact hr

/-- A short write of the leading newline alone: nothing but the pending append stands in the way,
the disk is quiet, and the next append is refused. -/
theorem leading_newline_refuses : ∃ store : Store Bool Unit, ∃ p out,
    (Store.opened [] fun _ => appendLog).run (faultedAppend (.short 1) .whole) = some store ∧
    (store.handle true).appending = none ∧ (store.handle true).pending = some p ∧
    Clear appendLog p store.file ∧
    (appendLog.appendObject (some p) "b" tinyNext.1).run DiskOp.step (fun _ v => v)
      (fun _ => .whole) 0 ((store.handle true).view store.file) = some out ∧ out.1.2 ≠ .ok () := by
  have hrun : ((Store.opened [] fun _ : Bool => appendLog).run
      (faultedAppend (.short 1) .whole)).map (fun store =>
        ((store.handle true).appending.isNone, (store.handle true).pending, store.file,
          ((appendLog.appendObject (store.handle true).pending "b" tinyNext.1).run DiskOp.step
            (fun _ v => v) (fun _ => .whole) 0 ((store.handle true).view store.file)).map
            fun out => out.1.2.toBool)) =
      some (true, some ⟨"a", tinyObject.1, 0, 1⟩, [newline], some false) := by decide +kernel
  obtain ⟨store, hs, hmap⟩ := Option.map_eq_some_iff.mp hrun
  simp only [Prod.mk.injEq, Option.isNone_iff_eq_none, Option.map_eq_some_iff] at hmap
  obtain ⟨hidle, hp, hfile, out, hout, hbad⟩ := hmap
  have hsegs : ∀ seg ∈ segments (store.file.drop 0), seg = [] := by
    rw [hfile]
    decide
  refine ⟨store, _, out, hs, hidle, hp, ?_, hp ▸ hout, ?_⟩
  · exact ⟨fun seg hm hb => absurd (hsegs seg hm) hb, fun seg hm hb => absurd (hsegs seg hm) hb⟩
  · intro hok
    rw [hok] at hbad
    simp [Except.toBool] at hbad

end DistributedMesh
