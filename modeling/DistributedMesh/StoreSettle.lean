import DistributedMesh.StoreRead

namespace DistributedMesh

open Interleaving

variable {Value : Type}

/-- What a writer may rely on of the append it has not proven: no segment crosses the offset it
reconciles from, its object does not stand before it, and its write left behind what it reported. -/
structure PendingOk (p : Pending) (file : Bytes) : Prop where
  framed : Framed p.obj
  cut : Cut file p.start
  before : p.obj ∉ segments (file.take p.start)
  told : p.reported = 0 ∨ (p.reported = 1 ∧ p.obj ∉ segments file) ∨
    (2 ≤ p.reported ∧ p.obj.take (p.reported - 1) ∈ segments (file.drop p.start))

theorem PendingOk.grows {allowed : Bytes → Prop} {p : Pending} {file file' : Bytes}
    (h : PendingOk p file) (hn : ¬ allowed p.obj) (hg : Grows allowed file file') :
    PendingOk p file' := by
  refine ⟨h.framed, h.cut.grows hg, ?_, ?_⟩
  · rw [hg.take h.cut.1]
    exact h.before
  · rcases h.told with h0 | ⟨h1, habs⟩ | ⟨h2, hst⟩
    · exact Or.inl h0
    · exact Or.inr (Or.inl ⟨h1, fun hm => habs ((mem_segments_grows h.framed hn hg).mp hm)⟩)
    · exact Or.inr (Or.inr ⟨h2, (segments_grows (hg.drop h.cut.1)).subset hst⟩)

/-- A write that put `w` of its line and reported as much, of an object that stood nowhere. -/
theorem PendingOk.written {p : Pending} {file w : Bytes} (h : PendingOk p file)
    (hw : w <+: lineOf p.obj) (habs : p.obj ∉ segments file) :
    PendingOk { p with reported := w.length } (file ++ w) := by
  have hputs : Puts (· = p.obj) w := Or.inr ⟨p.obj, rfl, h.framed, hw⟩
  have hle := h.cut.1
  refine ⟨h.framed, h.cut.put hputs, ?_, ?_⟩
  · rw [List.take_append_of_le_length hle]
    exact h.before
  · rw [List.drop_append_of_le_length hle]
    rcases lineOf_prefixes hw with rfl | rfl | ⟨x, rfl, hx⟩
    · exact Or.inl rfl
    · refine Or.inr (Or.inr ⟨by simp [lineOf], ?_⟩)
      have ht : p.obj.take ((lineOf p.obj).length - 1) = p.obj :=
        List.take_of_length_le (by simp [lineOf])
      rw [ht, lineOf, segments_append_newline, segments_ended h.framed.unbroken]
      simp
    · by_cases hn : x = []
      · subst hn
        refine Or.inr (Or.inl ⟨rfl, ?_⟩)
        rw [segments_append_newline, List.mem_append, not_or]
        exact ⟨habs, by simpa [segments] using h.framed.ne_nil⟩
      · have hpos := List.length_pos_iff.mpr hn
        refine Or.inr (Or.inr ⟨by simp only [List.length_cons]; omega, ?_⟩)
        have ht : p.obj.take ((newline :: x).length - 1) = x := by
          rw [List.length_cons, Nat.add_sub_cancel]
          exact (List.prefix_iff_eq_take.mp hx).symm
        rw [ht, segments_append_newline, segments_prefix_framed h.framed hx]
        simp

/-- Other writes of the line leave the offset and what stands before it. -/
theorem PendingOk.failed {p : Pending} {file w : Bytes} (h : PendingOk p file)
    (hw : w <+: lineOf p.obj) : PendingOk { p with reported := 0 } (file ++ w) := by
  have hputs : Puts (· = p.obj) w := Or.inr ⟨p.obj, rfl, h.framed, hw⟩
  refine ⟨h.framed, h.cut.put hputs, ?_, Or.inl rfl⟩
  rw [List.take_append_of_le_length h.cut.1]
  exact h.before

/-- The fold's offset stands just after a newline. -/
def FoldOk (v : View Value) : Prop := LineStart v.file v.inner.fold.consumed

/-- The file grows by objects `allowed`, and the handle's fold keeps its offset at a line's start. -/
structure Moves (allowed : Bytes → Prop) (s t : View Value) : Prop where
  grows : Grows allowed s.file t.file
  fold : FoldOk s → FoldOk t
  folded : s.inner.folded = true → t.inner.folded = true

theorem Moves.refl {allowed : Bytes → Prop} (s : View Value) : Moves allowed s s :=
  ⟨Grows.refl _, id, id⟩

theorem Moves.trans {allowed : Bytes → Prop} {s t u : View Value} (h : Moves allowed s t)
    (h' : Moves allowed t u) : Moves allowed s u :=
  ⟨h.grows.trans h'.grows, h'.fold ∘ h.fold, h'.folded ∘ h.folded⟩

theorem Moves.mono {allowed allowed' : Bytes → Prop} {s t : View Value} (h : Moves allowed s t)
    (hsub : ∀ o, allowed o → allowed' o) : Moves allowed' s t :=
  ⟨h.grows.mono hsub, h.fold, h.folded⟩

theorem Moves.put {allowed : Bytes → Prop} (s : View Value) {w : Bytes} (h : Puts allowed w) :
    Moves allowed s { s with file := s.file ++ w } :=
  ⟨Grows.put _ h, fun hs => hs.append w, id⟩

/-- A call that may put the objects `mine`, each as one segment at most, beside writers that put
`theirs` alone. -/
def storeContract (mine theirs : Bytes → Prop) : Contract Outcome (View Value) where
  rely := Moves theirs
  guar s t := Moves mine s t ∧ ∀ o, mine o → Framed o → (segments s.file).count o ≤ 1 →
    (segments t.file).count o ≤ 1
  fault _ := True
  waits := True
  rely_refl := Moves.refl
  rely_trans := Moves.trans

variable {mine theirs : Bytes → Prop}

/-- A step that leaves the file alone keeps every count. -/
theorem guar_inner {s : View Value} {inner : Inner Value}
    (hfold : FoldOk s → FoldOk { s with inner := inner })
    (hfolded : s.inner.folded = true → inner.folded = true) :
    (storeContract mine theirs).guar s { s with inner := inner } :=
  ⟨⟨Grows.refl _, hfold, hfolded⟩, fun _ _ _ h => h⟩

theorem guar_refl (s : View Value) : (storeContract mine theirs).guar s s :=
  ⟨Moves.refl s, fun _ _ _ h => h⟩

theorem guar_newline (s : View Value) {w : Bytes} (hw : w <+: [newline]) :
    (storeContract mine theirs).guar s { s with file := s.file ++ w } := by
  refine ⟨Moves.put s (Or.inl hw), fun o _ hf h => ?_⟩
  have hputs : Puts (fun _ => False) w := Or.inl hw
  have hc : (segments (s.file ++ w)).count o = (segments s.file).count o := count_put hf id hputs
  exact hc ▸ h

theorem guar_line (s : View Value) {obj w : Bytes} (hm : mine obj) (hf : Framed obj)
    (hw : w <+: lineOf obj) (habs : obj ∉ segments s.file) :
    (storeContract mine theirs).guar s { s with file := s.file ++ w } := by
  refine ⟨Moves.put s (Or.inr ⟨obj, hm, hf, hw⟩), fun o _ ho h => ?_⟩
  by_cases he : o = obj
  · subst he
    have hz := List.count_eq_zero.mpr habs
    have hc : (segments (s.file ++ w)).count o ≤ (segments s.file).count o + 1 :=
      count_written hf hw
    dsimp only
    omega
  · have hputs : Puts (· = obj) w := Or.inr ⟨obj, rfl, hf, hw⟩
    have hc : (segments (s.file ++ w)).count o = (segments s.file).count o := count_put ho he hputs
    exact hc ▸ h

theorem segments_line {seg : Bytes} (rest : Bytes) (h : newline ∉ seg) :
    segments (seg ++ newline :: rest) = seg :: segments rest := by
  rw [segments_append_newline, segments_unbroken h]
  rfl

theorem terminated_line {seg : Bytes} (rest : Bytes) (h : newline ∉ seg) :
    terminated (seg ++ newline :: rest) = seg :: terminated rest := by
  rw [terminated_append_newline, segments_unbroken h]
  rfl

section Reconcile

variable {log : StoreLog Value} {p : Pending}

theorem reconcileLoop_unended {x : Bytes} (h : newline ∉ x) (at_ : Nat) :
    log.reconcileLoop p x at_ =
      if x = p.obj then log.finish p at_ false
      else if x ≠ [] ∧ x <+: p.obj then
        .ret (.error (log.refusedAt p at_ "a partial object of it stands"))
      else match log.malformed x at_ with
        | some why => .ret (.error (log.refusedAt p at_ s!"the line there is malformed: {why}"))
        | none => .ret (.ok .absent) := by
  rw [StoreLog.reconcileLoop, takeWhile_unended h]
  simp only [h, decide_false, if_false]
  rfl

theorem reconcileLoop_line {seg : Bytes} (rest : Bytes) (h : newline ∉ seg) (at_ : Nat) :
    log.reconcileLoop p (seg ++ newline :: rest) at_ =
      if seg = p.obj then log.finish p at_ true
      else if seg ≠ [] ∧ seg <+: p.obj then
        .ret (.error (log.refusedAt p at_ "a partial object of it stands"))
      else match log.malformed seg at_ with
        | some why => .ret (.error (log.refusedAt p at_ s!"the line there is malformed: {why}"))
        | none => log.reconcileLoop p rest (at_ + (seg.length + 1)) := by
  have hm : newline ∈ seg ++ newline :: rest := by simp
  rw [StoreLog.reconcileLoop, takeWhile_line rest h, drop_line]
  simp only [hm, decide_true, if_true]
  rfl

/-- Reconciling finds the object and finishes it, refuses, or shows that the object is absent. -/
theorem reconcileLoop_cases (bytes : Bytes) (at_ : Nat) :
    (∃ a ended, log.reconcileLoop p bytes at_ = log.finish p a ended ∧ p.obj ∈ segments bytes ∧
      (ended = true → p.obj ∈ terminated bytes)) ∨
    (∃ e, log.reconcileLoop p bytes at_ = .ret (.error e)) ∨
    (log.reconcileLoop p bytes at_ = .ret (.ok .absent) ∧ p.obj ∉ segments bytes) := by
  induction bytes using lines_induct generalizing at_ with
  | unended x hx =>
    rw [reconcileLoop_unended hx, segments_unbroken hx]
    split
    next he => exact Or.inl ⟨at_, false, rfl, by simp [he], by simp⟩
    next he =>
      split
      next => exact Or.inr (Or.inl ⟨_, rfl⟩)
      next =>
        split
        next => exact Or.inr (Or.inl ⟨_, rfl⟩)
        next => exact Or.inr (Or.inr ⟨rfl, by simpa using fun h => he h.symm⟩)
  | line seg rest hs ih =>
    rw [reconcileLoop_line rest hs, segments_line rest hs, terminated_line rest hs]
    split
    next he => exact Or.inl ⟨at_, true, rfl, by simp [he], by simp [he]⟩
    next he =>
      split
      next => exact Or.inr (Or.inl ⟨_, rfl⟩)
      next =>
        split
        next => exact Or.inr (Or.inl ⟨_, rfl⟩)
        next =>
          rcases ih (at_ + (seg.length + 1)) with ⟨a, ended, hr, hm, ht⟩ | hr | ⟨hr, hm⟩
          · exact Or.inl ⟨a, ended, hr, List.mem_cons_of_mem _ hm,
              fun h => List.mem_cons_of_mem _ (ht h)⟩
          · exact Or.inr (Or.inl hr)
          · refine Or.inr (Or.inr ⟨hr, ?_⟩)
            rw [List.mem_cons, not_or]
            exact ⟨fun h => he h.symm, hm⟩

/-- Beside writers of other objects, putting newlines alone. -/
def reconcileContract (p : Pending) : Contract Outcome (View Value) :=
  storeContract (fun _ => False) (· ≠ p.obj)

/-- What `reconcile` answers: `done` with the object ended, `absent` with the object nowhere. -/
def ReconciledAs (p : Pending) (r : Except StorageError Reconciled) (v : View Value) : Prop :=
  (r = .ok .done → p.obj ∈ terminated v.file) ∧ (r = .ok .absent → p.obj ∉ segments v.file)

theorem ReconciledAs.error {e : StorageError} {v : View Value} :
    (Program.ret (.error e) : Disk Value _).Safe DiskOp.step (reconcileContract p)
      (ReconciledAs p) v := by
  intro t _
  exact ⟨by simp, by simp⟩

theorem finish_safe {v : View Value} {a : Nat} {ended : Bool} (hm : p.obj ∈ segments v.file)
    (hend : ended = true → p.obj ∈ terminated v.file) :
    (log.finish p a ended).Safe DiskOp.step (reconcileContract p) (ReconciledAs p) v := by
  have hsync : ∀ t : View Value, p.obj ∈ terminated t.file →
      (log.syncWhole p).Safe DiskOp.step (reconcileContract p) (ReconciledAs p) t := by
    intro t ht u hu f _
    refine ⟨guar_refl u, ?_⟩
    rcases f.answer_cases () with he | ⟨why, he⟩
    · rw [he]
      intro w hw
      exact ⟨fun _ => terminated_grows hw.grows (terminated_grows hu.grows ht), by simp⟩
    · rw [he]
      exact ReconciledAs.error
  rw [StoreLog.finish]
  split
  next h => exact hsync v (hend h)
  next =>
    intro t ht f _
    refine ⟨guar_newline t (f.put_prefix _), ?_⟩
    have hmt := (segments_grows ht.grows).subset hm
    rcases f.answer_cases (f.put [newline]).length with he | ⟨why, he⟩
    · rw [he]
      dsimp only [Program.bind]
      split
      next => exact ReconciledAs.error
      next hn =>
        have hw : f.put [newline] = [newline] :=
          (f.put_prefix [newline]).eq_of_length (by simpa using hn)
        refine hsync _ ?_
        rw [hw]
        exact terminated_newline hmt
    · rw [he]
      exact ReconciledAs.error

theorem reconcile_safe {v : View Value} (hp : PendingOk p v.file) :
    (log.reconcile p).Safe DiskOp.step (reconcileContract p) (ReconciledAs p) v := by
  intro t ht f _
  refine ⟨guar_refl t, ?_⟩
  have hpt := hp.grows (fun h => h rfl) ht.grows
  have hcut := mem_segments_cut hpt.cut hpt.framed.ne_nil
  rcases f.answer_cases (t.file.drop p.start) with he | ⟨why, he⟩
  · rw [he]
    dsimp only [Program.bind]
    rcases reconcileLoop_cases (t.file.drop p.start) p.start with
      ⟨a, ended, hr, hm, hend⟩ | ⟨e, hr⟩ | ⟨hr, hm⟩
    · rw [hr]
      exact finish_safe (hcut.mpr (Or.inr hm))
        fun h => terminated_cut hpt.cut hpt.framed.ne_nil (hend h)
    · rw [hr]
      exact ReconciledAs.error
    · rw [hr]
      intro u hu
      refine ⟨by simp, fun _ hmu => ?_⟩
      have hmt := (mem_segments_grows hpt.framed (fun h => h rfl) hu.grows).mp hmu
      exact (hcut.mp hmt).elim hpt.before hm
  · rw [he]
    exact ReconciledAs.error

/-- A writer settling the append `p`: it may put that object, and no other writer does. -/
def settleContract (p : Pending) : Contract Outcome (View Value) :=
  storeContract (· = p.obj) (· ≠ p.obj)

/-- Reconciling keeps what is known of the append, for the writer that settles it. -/
theorem reconcile_settles {v : View Value} (hp : PendingOk p v.file) :
    (log.reconcile p).Safe DiskOp.step (settleContract p)
      (fun r t => ReconciledAs p r t ∧ PendingOk p t.file) v := by
  refine (reconcile_safe hp).frame (settleContract p) (fun s => PendingOk p s.file)
    (fun s t hi hr => ⟨hr, hi.grows (fun h => h rfl) hr.grows⟩) ?_ (fun _ _ => trivial) id hp
  intro s t hi hg
  refine ⟨⟨hg.1.mono (fun _ h => h.elim), ?_⟩, hi.grows (fun h => h) hg.1.grows⟩
  rintro o rfl ho hle
  rw [count_grows ho (fun h => h) hg.1.grows]
  exact hle

/-- How settling an append ends: proven in the file, or still pending under the same object. -/
def Settled (p : Pending) (out : Option Pending × Except StorageError Unit) (v : View Value) :
    Prop :=
  (∀ q, out.1 = some q → q.obj = p.obj ∧ PendingOk q v.file) ∧
    (out.2 = .ok () → out.1 = none ∧ p.obj ∈ terminated v.file)

theorem Settled.kept {q : Pending} {e : StorageError} {v : View Value} (hq : q.obj = p.obj)
    (h : PendingOk q v.file) :
    (Program.ret (some q, .error e) : Disk Value _).Safe DiskOp.step (settleContract p)
      (Settled p) v := by
  intro t ht
  refine ⟨?_, by simp⟩
  intro q' hq'
  cases hq'
  exact ⟨hq, h.grows (fun hne => hne hq) ht.grows⟩

theorem Settled.proven {v : View Value} (h : p.obj ∈ terminated v.file) :
    (Program.ret (none, .ok ()) : Disk Value _).Safe DiskOp.step (settleContract p)
      (Settled p) v :=
  fun _ ht => ⟨by simp, fun _ => ⟨rfl, terminated_grows ht.grows h⟩⟩

theorem Settled.dropped {e : StorageError} {v : View Value} :
    (Program.ret (none, .error e) : Disk Value _).Safe DiskOp.step (settleContract p)
      (Settled p) v :=
  fun _ _ => ⟨by simp, by simp⟩

/-- Settling, where what follows an absent object that reported nothing is `rewrite`. -/
theorem settle_round {v : View Value} (hp : PendingOk p v.file)
    (rewrite : p.reported = 0 → ∀ t : View Value, PendingOk p t.file → p.obj ∉ segments t.file →
      (log.writePending p 0).Safe DiskOp.step (settleContract p) (Settled p) t) :
    (log.settle (some p)).Safe DiskOp.step (settleContract p) (Settled p) v := by
  rw [StoreLog.settle]
  refine Program.Safe.bind ((reconcile_settles hp).mono ?_)
  rintro r t ⟨hr, hpt⟩
  cases r with
  | error e => exact Settled.kept rfl hpt
  | ok found =>
    cases found with
    | done => exact Settled.proven (hr.1 rfl)
    | absent =>
      dsimp only
      split
      next h0 => exact rewrite h0 t hpt (hr.2 rfl)
      next => exact Settled.kept rfl hpt

section Rounds

variable {zeros : Nat}
  (again : zeros + 1 < 3 → ∀ t : View Value, PendingOk { p with reported := 0 } t.file →
    p.obj ∉ segments t.file → (log.writePending { p with reported := 0 } (zeros + 1)).Safe
      DiskOp.step (settleContract p) (Settled p) t)

include again in
/-- A write that reported no byte is reconciled and, where the object is absent, made again. The
continuation is given by its three answers. -/
theorem reconcile_retries {failed : StorageError}
    {k : Except StorageError Reconciled → Disk Value (Option Pending × Except StorageError Unit)}
    (herror : ∀ e, k (.error e) = .ret (some { p with reported := 0 }, .error e))
    (hdone : k (.ok .done) = .ret (none, .ok ()))
    (habsent : k (.ok .absent) = (if 3 ≤ zeros + 1 then .ret (none, .error failed)
      else log.writePending { p with reported := 0 } (zeros + 1))) {u : View Value}
    (hu : PendingOk { p with reported := 0 } u.file) :
    (log.reconcile { p with reported := 0 } >>= k).Safe DiskOp.step (settleContract p) (Settled p) u := by
  refine Program.Safe.bind ((reconcile_settles hu).mono ?_)
  rintro r w ⟨hr, hpw⟩
  cases r with
  | error e =>
    rw [herror]
    exact Settled.kept rfl hpw
  | ok found =>
    cases found with
    | done =>
      rw [hdone]
      exact Settled.proven (hr.1 rfl)
    | absent =>
      rw [habsent]
      by_cases hz : 3 ≤ zeros + 1
      · rw [if_pos hz]
        exact Settled.dropped
      · rw [if_neg hz]
        exact again (by omega) w hpw (hr.2 rfl)

include again in
/-- One write of an absent object's line and what follows it, up to the next write. -/
theorem writePending_round {v : View Value} (hp : PendingOk p v.file) (habs : p.obj ∉ segments v.file) :
    (log.writePending p zeros).Safe DiskOp.step (settleContract p) (Settled p) v := by
  rw [StoreLog.writePending]
  intro t ht f _
  have hpt := hp.grows (fun h => h rfl) ht.grows
  have habst : p.obj ∉ segments t.file :=
    fun hm => habs ((mem_segments_grows hp.framed (fun h => h rfl) ht.grows).mp hm)
  have hput := f.put_prefix (lineOf p.obj)
  refine ⟨guar_line t rfl hp.framed hput habst, ?_⟩
  change Program.Safe _ _
    (if (f.answer (f.put (lineOf p.obj)).length).toOption.getD 0 = (lineOf p.obj).length then _
      else if 0 < (f.answer (f.put (lineOf p.obj)).length).toOption.getD 0 then _ else _) _ _
  rcases f.answer_cases (f.put (lineOf p.obj)).length with he | ⟨why, he⟩
  · have hw := hpt.written hput habst
    have hget : (f.answer (f.put (lineOf p.obj)).length).toOption.getD 0 =
        (f.put (lineOf p.obj)).length := by rw [he]; rfl
    rw [hget]
    by_cases hfull : (f.put (lineOf p.obj)).length = (lineOf p.obj).length
    · rw [if_pos hfull]
      have hend : p.obj ∈ terminated (t.file ++ f.put (lineOf p.obj)) := by
        rw [hput.eq_of_length hfull]
        exact terminated_written hp.framed
      intro u hu f₁ _
      refine ⟨guar_refl u, ?_⟩
      rcases f₁.answer_cases () with he₁ | ⟨why, he₁⟩
      · rw [he₁]
        exact Settled.proven (terminated_grows hu.grows hend)
      · rw [he₁]
        exact Settled.kept rfl (hw.grows (fun h => h rfl) hu.grows)
    · rw [if_neg hfull]
      by_cases hpos : 0 < (f.put (lineOf p.obj)).length
      · rw [if_pos hpos]
        exact settle_round (v := { t with file := t.file ++ f.put (lineOf p.obj) }) hw
          fun h0 => absurd h0 (Nat.ne_of_gt hpos)
      · rw [if_neg hpos]
        have hz : (f.put (lineOf p.obj)).length = 0 := by omega
        rw [hz] at hw ⊢
        exact reconcile_retries again (fun _ => rfl) rfl rfl hw
  · have hget : (f.answer (f.put (lineOf p.obj)).length).toOption.getD 0 = 0 := by rw [he]; rfl
    have hlen : (0 : Nat) ≠ (lineOf p.obj).length := by simp [lineOf]
    rw [hget, if_neg hlen, if_neg (Nat.lt_irrefl 0)]
    exact reconcile_retries again (fun _ => rfl) rfl rfl (hpt.failed hput)

end Rounds

theorem writePending_safe {v : View Value} (zeros : Nat) (hp : PendingOk p v.file)
    (habs : p.obj ∉ segments v.file) :
    (log.writePending p zeros).Safe DiskOp.step (settleContract p) (Settled p) v := by
  induction hk : 3 - zeros using Nat.strongRecOn generalizing zeros p v with
  | ind k ih =>
    refine writePending_round (fun hz t ht habst => ?_) hp habs
    exact ih (3 - (zeros + 1)) (by omega) (zeros + 1) ht habst rfl

theorem settle_safe {v : View Value} (hp : PendingOk p v.file) :
    (log.settle (some p)).Safe DiskOp.step (settleContract p) (Settled p) v :=
  settle_round hp fun _ _ hpt habs => writePending_safe 0 hpt habs

end Reconcile

end DistributedMesh
