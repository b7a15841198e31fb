import DistributedMesh.StoreSettle

namespace DistributedMesh

open Interleaving

variable {Value α : Type} {log : StoreLog Value}

/-- A read, whatever the writers beside it put. -/
def readerContract : Contract Outcome (View Value) :=
  storeContract (fun _ => False) (fun _ => True)

/-- A call that owns some objects: it alone puts them. -/
def callContract (own : Bytes → Prop) : Contract Outcome (View Value) :=
  storeContract own (fun o => ¬ own o)

theorem readWhole_keeps {v : View Value} {start : Nat} (kind : ReadKind)
    (hs : LineStart v.file start) (h : FoldOk v) :
    (log.readWhole start kind false).Safe DiskOp.step readerContract
      (fun r t => ReadWhole log v.file start r t ∧ FoldOk t) v := by
  refine (readWhole_safe log kind hs (List.prefix_refl _)).frame readerContract FoldOk
    (fun s t hi hr => ⟨hr.grows.extends, hr.fold hi⟩) ?_ (fun _ _ => trivial) (fun hw => hw.elim) h
  rintro s t hi ⟨w, hw, rfl⟩
  exact ⟨guar_newline s hw, LineStart.append hi w⟩

theorem readTail_keeps {v : View Value} (kind : ReadKind) (h : FoldOk v) :
    (log.readTail kind).Safe DiskOp.step readerContract (fun _ t => FoldOk t) v := by
  intro t ht f _
  refine ⟨guar_refl t, ?_⟩
  have hft := ht.fold h
  dsimp only [Program.bind]
  refine Program.Safe.bind ((readWhole_keeps kind hft hft).mono ?_)
  rintro r u ⟨hr, hu⟩
  cases r with
  | error e => exact fun w hw => hw.fold hu
  | ok out =>
    obtain ⟨lines, consumed, unended⟩ := out
    have hcov := (hr _ rfl).1
    have htake : ∀ w : View Value, u.file <+: w.file →
        (disk (.take lines consumed) >>= fun _ => pure (.ok unended) :
          Disk Value (Except StorageError (Option (Nat × Nat)))).Safe DiskOp.step readerContract
          (fun _ t => FoldOk t) w := by
      intro w hw x hx f₁ _
      have hend := hcov.ended.extends (hw.trans hx.grows.extends)
      exact ⟨guar_inner (fun _ => hend) id, fun y hy => hy.fold hend⟩
    dsimp only
    split
    next =>
      intro w hw f₁ _
      exact ⟨guar_inner id id, htake _ hw.grows.extends⟩
    next => exact htake u (List.prefix_refl _)

theorem readHeld_keeps {v : View Value} (kind : ReadKind) (h : FoldOk v) :
    (log.readHeld kind).Safe DiskOp.step readerContract
      (fun r t => FoldOk t ∧ ∀ u, r = .ok u → t.inner.folded = true) v := by
  intro t ht f _
  refine ⟨guar_refl t, ?_⟩
  have htail : (log.readTail kind).Safe DiskOp.step readerContract (fun _ t => FoldOk t) t :=
    readTail_keeps kind (ht.fold h)
  dsimp only [Program.bind]
  split
  next hfolded =>
    refine (htail.frame readerContract (fun s => s.inner.folded = true)
      (fun s u hi hr => ⟨hr, hr.folded hi⟩) (fun s u hi hg => ⟨hg, hg.1.folded hi⟩)
      (fun _ => id) id hfolded).mono ?_
    exact fun r u hu => ⟨hu.1, fun _ _ => hu.2⟩
  next =>
    refine Program.Safe.bind (htail.mono ?_)
    intro r u hu
    cases r with
    | error e => exact fun w hw => ⟨hw.fold hu, by simp⟩
    | ok unended =>
      intro w hw f₁ _
      refine ⟨guar_inner id fun _ => rfl, fun x hx => ⟨hx.fold (hw.fold hu), fun _ _ => ?_⟩⟩
      exact hx.folded rfl

theorem read_keeps {v : View Value} (kind : ReadKind) (h : FoldOk v) :
    (log.read kind).Safe DiskOp.step readerContract
      (fun r t => FoldOk t ∧ ∀ u, r = .ok u → t.inner.folded = true) v := by
  intro t ht f _
  by_cases hlock : t.inner.reading = true
  · have hwait : DiskOp.lockReading.step f t = none := by simp [DiskOp.step, hlock]
    rw [hwait]
    trivial
  · have hgo : DiskOp.lockReading.step f t = some ((), { t with inner.reading := true }) := by
      simp [DiskOp.step, hlock]
    rw [hgo]
    refine ⟨guar_inner id id, ?_⟩
    dsimp only [Program.bind]
    have hft : FoldOk { t with inner.reading := true } := ht.fold h
    refine Program.Safe.bind ((readHeld_keeps kind hft).mono ?_)
    rintro r u ⟨hu, hfolded⟩ w hw f₁ _
    refine ⟨guar_inner id id, fun x hx => ⟨hx.fold (hw.fold hu), fun y hy => ?_⟩⟩
    exact hx.folded (hw.folded (hfolded y hy))

theorem foldBeforeAppend_keeps {v : View Value} (h : FoldOk v) :
    log.foldBeforeAppend.Safe DiskOp.step readerContract
      (fun r t => r = .ok () → log.appends = true ∨ t.inner.folded = true) v := by
  rw [StoreLog.foldBeforeAppend]
  split
  next ha => exact fun _ _ _ => Or.inl ha
  next =>
    intro t ht f _
    refine ⟨guar_refl t, ?_⟩
    dsimp only [Program.bind]
    split
    next hfolded => exact fun u hu _ => Or.inr (hu.folded hfolded)
    next =>
      refine Program.Safe.bind ((read_keeps .tail (ht.fold h)).mono ?_)
      rintro r u ⟨_, hu⟩
      cases r with
      | error e => exact fun _ _ he => by simp at he
      | ok unended => exact fun w hw _ => Or.inr (hw.folded (hu unended rfl))

/-- The objects a call on a handle owns: the one it appends, and its pending append's. -/
def Owns (pending : Option Pending) (obj : Option Bytes) (o : Bytes) : Prop :=
  obj = some o ∨ ∃ p, pending = some p ∧ p.obj = o

/-- What a call that takes the append lock finds: what its pending append left behind, and its own
object nowhere in the file. -/
structure CallReady (log : StoreLog Value) (pending : Option Pending) (obj : Option Bytes)
    (v : View Value) : Prop where
  unproven : ∀ p, pending = some p →
    PendingOk p v.file ∧ (log.appends = true ∨ v.inner.folded = true)
  fresh : ∀ o, obj = some o → Framed o ∧ o ∉ segments v.file ∧ ∀ p, pending = some p → p.obj ≠ o
  fold : FoldOk v

/-- What a call that took the append lock leaves: a pending append of an object it owns, or, where
it answers `Ok`, its object ended in the file. -/
def CallDone (log : StoreLog Value) (pending : Option Pending) (obj : Option Bytes)
    (out : Option Pending × Except StorageError Unit) (v : View Value) : Prop :=
  (∀ q, out.1 = some q → Owns pending obj q.obj ∧ PendingOk q v.file ∧
    (log.appends = true ∨ v.inner.folded = true)) ∧
  (∀ o, obj = some o → out.2 = .ok () → o ∈ terminated v.file)

theorem folded_moves {allowed : Bytes → Prop} {s t : View Value} (hm : Moves allowed s t)
    (h : log.appends = true ∨ s.inner.folded = true) :
    log.appends = true ∨ t.inner.folded = true :=
  h.imp_right hm.folded

theorem CallReady.moves {allowed : Bytes → Prop} {pending : Option Pending} {obj : Option Bytes}
    {s t : View Value} (h : CallReady log pending obj s) (hm : Moves allowed s t)
    (hn : ∀ o, Owns pending obj o → ¬ allowed o) : CallReady log pending obj t := by
  refine ⟨fun p hp => ?_, fun o ho => ?_, hm.fold h.fold⟩
  · obtain ⟨hok, hf⟩ := h.unproven p hp
    exact ⟨hok.grows (hn _ (Or.inr ⟨p, hp, rfl⟩)) hm.grows, folded_moves hm hf⟩
  · obtain ⟨hf, habs, hne⟩ := h.fresh o ho
    refine ⟨hf, fun hm' => habs ?_, hne⟩
    exact (mem_segments_grows hf (hn o (Or.inl ho)) hm.grows).mp hm'

/-- A read a call makes keeps what the call knows of the objects it owns. -/
theorem safe_of_reader {own : Bytes → Prop} {prog : Disk Value α}
    {post : α → View Value → Prop} {v : View Value}
    (h : prog.Safe DiskOp.step readerContract post v) (inv : View Value → Prop)
    (hinv : ∀ s t, inv s → Moves (fun o => ¬ own o) s t → inv t) (hv : inv v) :
    prog.Safe DiskOp.step (callContract own) (fun a t => post a t ∧ inv t) v := by
  refine h.frame (callContract own) inv ?_ ?_ (fun _ => id) id hv
  · exact fun s t hi hr => ⟨hr.mono fun _ _ => trivial, hinv s t hi hr⟩
  · refine fun s t hi hg => ⟨⟨hg.1.mono fun _ hf => hf.elim, fun o _ ho hle => ?_⟩,
      hinv s t hi (hg.1.mono fun _ hf => hf.elim)⟩
    rw [count_grows ho (fun hf => hf) hg.1.grows]
    exact hle

/-- Settling one of the objects a call owns keeps what the call knows of the others. -/
theorem safe_of_settle {own : Bytes → Prop} {p : Pending} {prog : Disk Value α}
    {post : α → View Value → Prop} {v : View Value}
    (h : prog.Safe DiskOp.step (settleContract p) post v) (inv : View Value → Prop) (hp : own p.obj)
    (hinv : ∀ s t, inv s → Moves (fun o => o = p.obj ∨ ¬ own o) s t → inv t) (hv : inv v) :
    prog.Safe DiskOp.step (callContract own) (fun a t => post a t ∧ inv t) v := by
  refine h.frame (callContract own) inv ?_ ?_ (fun _ => id) id hv
  · refine fun s t hi hr => ⟨hr.mono fun o ho he => ho (he ▸ hp), hinv s t hi ?_⟩
    exact hr.mono fun _ ho => Or.inr ho
  · refine fun s t hi hg => ⟨⟨hg.1.mono fun o ho => ho ▸ hp, fun o _ ho hle => ?_⟩,
      hinv s t hi (hg.1.mono fun _ ho => Or.inl ho)⟩
    by_cases he : o = p.obj
    · exact hg.2 o he ho hle
    · rw [count_grows ho he hg.1.grows]
      exact hle

section Calls

variable {pending : Option Pending} {obj : Option Bytes}

/-- Settling the pending append of a call leaves the object it appends out of the file. -/
theorem settle_call {v : View Value} (h : CallReady log pending obj v) :
    (log.settle pending).Safe DiskOp.step (callContract (Owns pending obj))
      (fun out t => (∀ q, out.1 = some q → Owns pending none q.obj ∧ PendingOk q t.file ∧
          (log.appends = true ∨ t.inner.folded = true)) ∧
        (out.2 = .ok () → CallReady log none obj t ∧ out.1 = none)) v := by
  cases hp : pending with
  | none =>
    subst hp
    rw [StoreLog.settle]
    intro t ht
    exact ⟨by simp, fun _ => ⟨h.moves ht fun _ ho hn => hn ho, rfl⟩⟩
  | some p =>
    obtain ⟨hok, hfolded⟩ := h.unproven p hp
    have hown : Owns (some p) obj p.obj := Or.inr ⟨p, rfl, rfl⟩
    have hready : CallReady log none obj v := by
      refine ⟨by simp, fun o ho => ?_, h.fold⟩
      exact ⟨(h.fresh o ho).1, (h.fresh o ho).2.1, by simp⟩
    refine (safe_of_settle (settle_safe hok)
      (fun s => (log.appends = true ∨ s.inner.folded = true) ∧ CallReady log none obj s) hown
      ?_ ⟨hfolded, hready⟩).mono ?_
    · refine fun s t hs hm => ⟨folded_moves hm hs.1, hs.2.moves hm fun o ho => ?_⟩
      have ho : obj = some o := ho.resolve_right (by simp)
      rintro (he | hn)
      · exact (h.fresh o ho).2.2 p hp he.symm
      · exact hn (Or.inl ho)
    · rintro out t ⟨⟨hkept, hdone⟩, hf, hr⟩
      refine ⟨fun q hq => ?_, fun he => ⟨hr, (hdone he).1⟩⟩
      obtain ⟨hobj, hqok⟩ := hkept q hq
      exact ⟨Or.inr ⟨p, rfl, hobj.symm⟩, hqok, hf⟩

theorem Owns.unpending {o : Bytes} (h : Owns pending none o) : Owns pending obj o :=
  Or.inr (h.resolve_left (by simp))

/-- Writing a fresh object from an offset no segment crosses. -/
theorem writeNew_call {id : String} {o : Bytes} {start : Nat} {v : View Value}
    (h : CallReady log none (some o) v) (hf : log.appends = true ∨ v.inner.folded = true)
    (hcut : Cut v.file start) :
    (log.writePending ⟨id, o, start, 0⟩ 0).Safe DiskOp.step (callContract (Owns pending (some o)))
      (CallDone log pending (some o)) v := by
  obtain ⟨hframed, habs, _⟩ := h.fresh o rfl
  have hok : PendingOk ⟨id, o, start, 0⟩ v.file := by
    refine ⟨hframed, hcut, fun hm => habs ?_, Or.inl rfl⟩
    exact (mem_segments_cut hcut hframed.ne_nil).mpr (Or.inl hm)
  have hown : Owns pending (some o) o := Or.inl rfl
  refine (safe_of_settle (writePending_safe 0 hok habs)
    (fun s => log.appends = true ∨ s.inner.folded = true) hown
    (fun s t hs hm => folded_moves hm hs) hf).mono ?_
  rintro out t ⟨⟨hkept, hdone⟩, hft⟩
  refine ⟨fun q hq => ?_, fun o' ho' he => ?_⟩
  · obtain ⟨hobj, hqok⟩ := hkept q hq
    exact ⟨Or.inl (congrArg some hobj.symm), hqok, hft⟩
  · cases ho'
    exact (hdone he).2

theorem appendNew_call {id : String} {o : Bytes} {v : View Value}
    (h : CallReady log pending (some o) v) (hf : log.appends = true ∨ v.inner.folded = true) :
    (log.appendNew pending id o).Safe DiskOp.step (callContract (Owns pending (some o)))
      (CallDone log pending (some o)) v := by
  have hsettle := (settle_call h).frame (callContract (Owns pending (some o)))
    (fun s => log.appends = true ∨ s.inner.folded = true)
    (fun s t hs hr => ⟨hr, folded_moves hr hs⟩) (fun s t hs hg => ⟨hg, folded_moves hg.1 hs⟩)
    (fun _ h => h) (fun h => h) hf
  refine Program.Safe.bind (hsettle.mono ?_)
  rintro ⟨left, r⟩ t ⟨⟨hkept, hready⟩, hft⟩
  have hleft : ∀ e, (Program.ret (left, .error e) : Disk Value _).Safe DiskOp.step
      (callContract (Owns pending (some o))) (CallDone log pending (some o)) t := by
    intro e u hu
    refine ⟨fun q hq => ?_, by simp⟩
    obtain ⟨hown, hok, hfq⟩ := hkept q hq
    exact ⟨hown.unpending, hok.grows (fun hn => hn hown.unpending) hu.grows, folded_moves hu hfq⟩
  cases r with
  | error e => exact hleft e
  | ok _ =>
    obtain ⟨hready, hnone⟩ := hready rfl
    have hmove : ∀ u : View Value, (callContract (Owns pending (some o))).rely t u →
        CallReady log none (some o) u := by
      refine fun u hu => hready.moves hu fun o' ho' hn => hn ?_
      exact Or.inl (ho'.resolve_right (by simp))
    dsimp only
    split
    next =>
      intro u hu f _
      refine ⟨guar_refl u, ?_⟩
      rcases f.answer_cases u.file.length with he | ⟨why, he⟩
      · rw [he]
        exact writeNew_call (hmove u hu) (folded_moves hu hft) (Cut.end _)
      · rw [he]
        exact (hleft _).stable hu
    next =>
      intro u hu f _
      refine ⟨guar_refl u, ?_⟩
      exact writeNew_call (hmove u hu) (folded_moves hu hft) (hmove u hu).fold.cut

/-- A call of `append_object` puts its object at most once, and answers `Ok` with it ended. -/
theorem appendObject_call {id : String} {o : Bytes} {v : View Value}
    (h : CallReady log pending (some o) v) :
    (log.appendObject pending id o).Safe DiskOp.step (callContract (Owns pending (some o)))
      (CallDone log pending (some o)) v := by
  refine Program.Safe.bind ((safe_of_reader (foldBeforeAppend_keeps h.fold)
    (CallReady log pending (some o)) (fun s t hs hm => hs.moves hm fun _ ho hn => hn ho) h).mono ?_)
  rintro r t ⟨hf, hready⟩
  cases r with
  | error e =>
    intro u hu
    refine ⟨fun q hq => ?_, by simp⟩
    obtain ⟨hok, hfq⟩ := (hready.moves hu fun _ ho hn => hn ho).unproven q hq
    exact ⟨Or.inr ⟨q, hq, rfl⟩, hok, hfq⟩
  | ok _ => exact appendNew_call hready (hf rfl)

theorem reconcile_call {v : View Value} (h : CallReady log pending none v) :
    (log.settle pending).Safe DiskOp.step (callContract (Owns pending none))
      (CallDone log pending none) v :=
  (settle_call h).mono fun _ _ hout => ⟨hout.1, by simp⟩

end Calls

end DistributedMesh
