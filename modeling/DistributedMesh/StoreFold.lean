import DistributedMesh.KeyedMaps
import DistributedMesh.StoreJson
import DistributedMesh.StoreRead

namespace DistributedMesh

open Interleaving
open KeyedMaps (getElem?_insert_eq)

variable {Value : Type}

/-- What a fold holds of the lines of a prefix, said of the lines alone: of each (type, subject) the last line that has
it, how many lines there are, and how many each source wrote. -/
structure Tells (fold : Fold Value) (lines : List (Line Value)) : Prop where
  latest : ∀ kind subject, fold.latest[(kind, subject)]? =
    (lines.filter fun l => l.attributes.type = kind ∧ l.attributes.subject = some subject).getLast?
  count : fold.lines = lines.length
  sources : ∀ source, fold.sources[source]? =
    if lines.countP (·.attributes.source = source) = 0 then none
    else some (lines.countP (·.attributes.source = source))

/-- The fold and the lines shown are those of one scan, from byte 0, of the prefix consumed. -/
def Exact (log : StoreLog Value) (v : View Value) : Prop :=
  LineStart v.file v.inner.fold.consumed ∧
    ∃ lines, scan log.serde log.formats (v.file.take v.inner.fold.consumed) 0 =
        .ok ⟨lines, v.inner.fold.consumed, none⟩ ∧
      Tells v.inner.fold lines ∧ v.inner.observed = if log.observes then lines else []

/-- One handle reading: other writers append whatever they like, and only it moves its fold. -/
def foldContract : Contract Outcome (View Value) where
  rely s t := s.file <+: t.file ∧ t.inner = s.inner
  guar s t := s.file <+: t.file
  fault _ := True
  waits := False
  rely_refl s := ⟨List.prefix_refl s.file, rfl⟩
  rely_trans h h' := ⟨h.1.trans h'.1, h'.2.trans h.2⟩

theorem Tells.empty : Tells (Fold.empty : Fold Value) [] := ⟨by simp [Fold.empty], rfl, by simp [Fold.empty]⟩

/-- Lines are held by their type and subject. -/
instance latestOrdered : Std.LawfulEqCmp (compareLex (compareOn fun k : String × String => k.1) (compareOn (·.2))) where
  eq_of_compare h := by
    obtain ⟨hkind, hsubject⟩ := Ordering.then_eq_eq.mp h
    exact Prod.ext (Std.LawfulEqCmp.eq_of_compare hkind) (Std.LawfulEqCmp.eq_of_compare hsubject)

theorem Tells.takeLine {fold : Fold Value} {lines : List (Line Value)} (h : Tells fold lines) (l : Line Value) :
    Tells (fold.takeLine l) (lines ++ [l]) := by
  refine ⟨?_, ?_, ?_⟩
  · intro kind subject
    rw [List.filter_append]
    cases hsubject : l.attributes.subject with
    | none => simp [Fold.takeLine, hsubject, h.latest]
    | some own =>
      have hinsert : (fold.takeLine l).latest = fold.latest.insert (l.attributes.type, own) l := by
        simp [Fold.takeLine, Line.kind, Line.subject, hsubject]
      rw [hinsert, getElem?_insert_eq]
      by_cases hkey : l.attributes.type = kind ∧ own = subject
      · simp [hsubject, hkey.1, hkey.2]
      · have hne : ¬(l.attributes.type, own) = (kind, subject) := by simpa using hkey
        have hout : [l].filter (fun l => l.attributes.type = kind ∧ l.attributes.subject = some subject) = [] := by
          rw [List.filter_cons_of_neg (by simpa [hsubject] using hkey), List.filter_nil]
        rw [if_neg hne, h.latest, hout, List.append_nil]
  · simp [Fold.takeLine, h.count]
  · intro source
    have hinsert : (fold.takeLine l).sources[source]? = if l.attributes.source = source
        then some (fold.sources[l.attributes.source]?.getD 0 + 1) else fold.sources[source]? :=
      getElem?_insert_eq ..
    rw [hinsert, List.countP_append, List.countP_singleton]
    by_cases hsource : l.attributes.source = source
    · have hcount : fold.sources[source]?.getD 0 = lines.countP (·.attributes.source = source) := by
        rw [h.sources]
        split
        next hnone => rw [hnone, Option.getD_none]
        next => rfl
      simp [hsource, hcount]
    · simp [hsource, h.sources]

theorem Tells.take {fold : Fold Value} {lines : List (Line Value)} (h : Tells fold lines) (more : List (Line Value)) :
    Tells (fold.take more) (lines ++ more) := by
  induction more generalizing fold lines with
  | nil => simpa [Fold.take] using h
  | cons l more ih =>
    have hrest := ih (h.takeLine l)
    rwa [List.append_assoc] at hrest

/-- What one read makes of the handle's shared state: the lines it read whole are folded and
shown, and the offset moves past them, through the last newline of the file it saw; a read that
answers an error folds and shows none. -/
def Advanced (log : StoreLog Value) (base : Bytes) (before : Inner Value)
    (r : Except StorageError (Option (Nat × Nat))) (v : View Value) : Prop :=
  match r with
  | .error _ => v.inner.fold = before.fold ∧ v.inner.observed = before.observed
  | .ok unended => ∃ lines consumed,
      Covers log.serde log.formats v.file before.fold.consumed lines consumed ∧
      v.inner.fold = { before.fold.take lines with consumed := consumed } ∧
      (v.inner.observed = before.observed ++ if log.observes then lines else []) ∧
      ∃ seen, base <+: seen ∧ seen <+: v.file ∧ Drained seen consumed unended

theorem Advanced.move {log : StoreLog Value} {base : Bytes} {before : Inner Value} {v w : View Value}
    {r : Except StorageError (Option (Nat × Nat))} (h : Advanced log base before r v)
    (hf : v.file <+: w.file) (hfold : w.inner.fold = v.inner.fold)
    (hobs : w.inner.observed = v.inner.observed) : Advanced log base before r w := by
  cases r with
  | error e => exact ⟨hfold.trans h.1, hobs.trans h.2⟩
  | ok u =>
    obtain ⟨lines, consumed, hc, hl, ho, seen, hbase, hseen, hd⟩ := h
    exact ⟨lines, consumed, hc.extends hf, hfold.trans hl, hobs.trans ho, seen, hbase, hseen.trans hf, hd⟩

theorem readTail_advances (log : StoreLog Value) {v : View Value} {base : Bytes} (kind : ReadKind)
    (hs : LineStart v.file v.inner.fold.consumed) (hbase : base <+: v.file) :
    (log.readTail kind).Safe DiskOp.step foldContract (Advanced log base v.inner) v := by
  intro t ht f _
  refine ⟨List.prefix_refl _, ?_⟩
  dsimp only [Program.bind]
  have hst : LineStart t.file v.inner.fold.consumed := hs.extends ht.1
  rw [ht.2]
  have hread := (readWhole_safe log kind hst (hbase.trans ht.1)).frame foldContract (fun s => s.inner = v.inner)
    (fun s u hi hr => ⟨hr.1, hr.2.trans hi⟩)
    (fun s u hi ⟨w, _, hu⟩ => ⟨by rw [hu]; exact List.prefix_append _ _, by rw [hu]; exact hi⟩)
    (fun _ _ => trivial) id ht.2
  refine Program.Safe.bind (hread.mono ?_)
  rintro r u ⟨hr, hi⟩
  cases r with
  | error e =>
    intro u' hu'
    have hsame := hu'.2.trans hi
    exact ⟨by rw [hsame], by rw [hsame]⟩
  | ok out =>
    obtain ⟨lines, consumed, unended⟩ := out
    obtain ⟨hcov, seen, hgrown, hseen, hdrained⟩ := hr (lines, consumed, unended) rfl
    have htake : ∀ u' : View Value, u.file <+: u'.file → u'.inner.fold = v.inner.fold →
        u'.inner.observed = v.inner.observed ++ (if log.observes then lines else []) →
        ((disk (.take lines consumed) >>= fun _ => pure (.ok unended) : Disk Value _)).Safe
          DiskOp.step foldContract (Advanced log base v.inner) u' := by
      intro u' hf hfold hobs t₁ ht₁ f₁ _
      refine ⟨List.prefix_refl _, fun t₂ ht₂ => ⟨lines, consumed, ?_, ?_, ?_, seen, hgrown, ?_, hdrained⟩⟩
      · exact hcov.extends (hf.trans (ht₁.1.trans ht₂.1))
      · rw [ht₂.2]
        simp only [ht₁.2, hfold]
      · rw [ht₂.2]
        simp only [ht₁.2, hobs]
      · exact hseen.trans (hf.trans (ht₁.1.trans ht₂.1))
    dsimp only
    by_cases ho : log.observes = true
    · rw [if_pos ho]
      intro t₁ ht₁ f₁ _
      refine ⟨List.prefix_refl _, htake _ ht₁.1 ?_ ?_⟩
      · simp only [ht₁.2, hi]
      · simp only [ht₁.2, hi, ho, if_true]
    · rw [if_neg ho]
      refine htake u (List.prefix_refl _) ?_ ?_
      · rw [hi]
      · simp [hi, ho]

theorem readHeld_advances (log : StoreLog Value) {v : View Value} {base : Bytes} (kind : ReadKind)
    (hs : LineStart v.file v.inner.fold.consumed) (hbase : base <+: v.file) :
    (log.readHeld kind).Safe DiskOp.step foldContract (Advanced log base v.inner) v := by
  intro t ht f _
  refine ⟨List.prefix_refl _, ?_⟩
  have htail : (log.readTail kind).Safe DiskOp.step foldContract (Advanced log base v.inner) t := by
    rw [← ht.2]
    refine readTail_advances log kind ?_ (hbase.trans ht.1)
    rw [ht.2]
    exact hs.extends ht.1
  dsimp only [Program.bind]
  split
  next => exact htail
  next =>
    refine Program.Safe.bind (htail.mono ?_)
    intro r u hu
    cases r with
    | error e => exact fun u' hu' => hu.move hu'.1 (by rw [hu'.2]) (by rw [hu'.2])
    | ok unended =>
      intro t₁ ht₁ f₁ _
      refine ⟨List.prefix_refl _, fun t₂ ht₂ => hu.move (ht₁.1.trans ht₂.1) ?_ ?_⟩
      · simp only [ht₂.2, ht₁.2]
      · simp only [ht₂.2, ht₁.2]

/-- A read that finds the lock free advances the fold and leaves the lock free. -/
theorem read_advances (log : StoreLog Value) {v : View Value} (kind : ReadKind)
    (hs : LineStart v.file v.inner.fold.consumed) (hfree : v.inner.reading = false) :
    (log.read kind).Safe DiskOp.step foldContract
      (fun r t => Advanced log v.file v.inner r t ∧ t.inner.reading = false) v := by
  intro t ht f _
  have hlock : DiskOp.lockReading.step f t = some ((), { t with inner.reading := true }) := by
    simp [DiskOp.step, ht.2, hfree]
  rw [hlock]
  refine ⟨List.prefix_refl _, ?_⟩
  have hheld := readHeld_advances log (v := { t with inner.reading := true }) kind (by
    simp only [ht.2]
    exact hs.extends ht.1) ht.1
  dsimp only [Program.bind]
  refine Program.Safe.bind (hheld.mono ?_)
  intro r u hu
  have hu : Advanced log v.file v.inner r u := by
    simp only [ht.2] at hu
    cases r with
    | error e => exact hu
    | ok unended => exact hu
  intro t₁ ht₁ f₁ _
  refine ⟨List.prefix_refl _, fun t₂ ht₂ => ⟨hu.move (ht₁.1.trans ht₂.1) ?_ ?_, ?_⟩⟩
  · simp only [ht₂.2, ht₁.2]
  · simp only [ht₂.2, ht₁.2]
  · simp only [ht₂.2]

theorem Exact.unread (log : StoreLog Value) (file : Bytes) : Exact log ⟨file, Inner.unread⟩ := by
  refine ⟨⟨Nat.zero_le _, Or.inl rfl⟩, [], ?_, Tells.empty, by simp [Inner.unread]⟩
  rw [scan, show Inner.unread.fold.consumed = 0 from rfl, List.take_zero, scanLoop_unended (by simp)]
  rfl

/-- Advancing an exact fold gives the fold of the longer prefix. -/
theorem Exact.advanced {log : StoreLog Value} {v w : View Value} {base : Bytes}
    {r : Except StorageError (Option (Nat × Nat))} (h : Exact log v) (hf : v.file <+: w.file)
    (ha : Advanced log base v.inner r w) :
    Exact log w ∧ v.inner.fold.consumed ≤ w.inner.fold.consumed := by
  obtain ⟨hs, lines, hscan, hfold, hobs⟩ := h
  have hcov : Covers log.serde log.formats w.file 0 lines v.inner.fold.consumed :=
    Covers.extends ⟨Nat.zero_le _, hs, hscan⟩ hf
  cases r with
  | error e =>
    obtain ⟨he, ho⟩ := ha
    refine ⟨⟨?_, lines, ?_, ?_, ?_⟩, by rw [he]⟩
    · rw [he]
      exact hcov.ended
    · rw [he]
      exact hcov.scanned
    · rw [he]
      exact hfold
    · rw [ho]
      exact hobs
  | ok unended =>
    obtain ⟨more, consumed, hmore, he, ho, -⟩ := ha
    have hall := hcov.trans hmore
    refine ⟨⟨?_, lines ++ more, ?_, ?_, ?_⟩, ?_⟩
    · rw [he]
      exact hall.ended
    · rw [he]
      exact hall.scanned
    · rw [he]
      have htells := hfold.take more
      exact ⟨htells.latest, htells.count, htells.sources⟩
    · rw [ho, hobs]
      split <;> simp
    · rw [he]
      exact hmore.from_

/-- One call of `read`: what other writers append before each of its operations, and how each of
its disk calls ends. -/
structure ReadCall where
  kind : ReadKind
  grown : Nat → Bytes
  outcomes : Nat → Outcome

def StoreLog.runRead (log : StoreLog Value) (call : ReadCall) (v : View Value) :
    Option (Except StorageError (Option (Nat × Nat)) × View Value) :=
  (log.read call.kind).run DiskOp.step (fun n s => { s with file := s.file ++ call.grown n })
    call.outcomes 0 v

/-- A handle's reads one after another, as its read lock orders them. -/
def StoreLog.runReads (log : StoreLog Value) (calls : List ReadCall) (v : View Value) :
    Option (View Value) :=
  calls.foldlM (fun v call => (log.runRead call v).map Prod.snd) v

theorem runRead_exact (log : StoreLog Value) (call : ReadCall) {v : View Value} (h : Exact log v)
    (hfree : v.inner.reading = false) :
    ∃ r w, log.runRead call v = some (r, w) ∧ v.file <+: w.file ∧ Advanced log v.file v.inner r w ∧
      w.inner.reading = false := by
  have hread := (read_advances log call.kind h.1 hfree).frame foldContract
    (fun s => v.file <+: s.file) (fun s t hi hr => ⟨hr, hi.trans hr.1⟩)
    (fun s t hi hg => ⟨hg, hi.trans hg⟩) (fun _ => id) id (List.prefix_refl _)
  obtain ⟨r, w, hrun, ⟨ha, hw⟩, hf⟩ := hread.run id
    (fun n s => { s with file := s.file ++ call.grown n }) call.outcomes
    (fun n s => ⟨List.prefix_append _ _, rfl⟩) (fun _ => trivial) 0
  exact ⟨r, w, hrun, hf, ha, hw⟩

theorem runReads_exact (log : StoreLog Value) (calls : List ReadCall) {v : View Value}
    (h : Exact log v) (hfree : v.inner.reading = false) :
    ∃ w, log.runReads calls v = some w ∧ Exact log w ∧ w.inner.reading = false := by
  induction calls generalizing v with
  | nil => exact ⟨v, rfl, h, hfree⟩
  | cons call calls ih =>
    obtain ⟨r, u, hrun, hf, ha, hu⟩ := runRead_exact log call h hfree
    obtain ⟨w, hw, he, hr⟩ := ih (h.advanced hf ha).1 hu
    refine ⟨w, ?_, he, hr⟩
    simp only [StoreLog.runReads, List.foldlM_cons, hrun] at hw ⊢
    exact hw

/-- After every schedule of reads of a growing file the fold and the lines shown are those of one
scan of the consumed prefix; the next read keeps that, never moves the offset back, moves it through
the last newline of the file as it saw it where it answers, and leaves fold and lines as they were
where it answers an error. -/
theorem incremental_fold_eq_whole_fold (log : StoreLog Value) (file : Bytes)
    (calls : List ReadCall) (call : ReadCall) :
    ∃ v r w, log.runReads calls ⟨file, Inner.unread⟩ = some v ∧ log.runRead call v = some (r, w) ∧
      Exact log v ∧ Exact log w ∧ v.file <+: w.file ∧
      v.inner.fold.consumed ≤ w.inner.fold.consumed ∧
      (∀ unended, r = .ok unended → ∃ seen, v.file <+: seen ∧ seen <+: w.file ∧
        Drained seen w.inner.fold.consumed unended) ∧
      ∀ e, r = .error e → w.inner.fold = v.inner.fold ∧ w.inner.observed = v.inner.observed := by
  obtain ⟨v, hv, he, hfree⟩ := runReads_exact log calls (Exact.unread log file) rfl
  obtain ⟨r, w, hrun, hf, ha, _⟩ := runRead_exact log call he hfree
  obtain ⟨hew, hle⟩ := he.advanced hf ha
  refine ⟨v, r, w, hv, hrun, he, hew, hf, hle, ?_, ?_⟩
  · rintro unended rfl
    obtain ⟨lines, consumed, -, hfold, -, seen, hbase, hseen, hdrained⟩ := ha
    refine ⟨seen, hbase, hseen, ?_⟩
    rw [hfold]
    exact hdrained
  · rintro e rfl
    exact ha

/-- A read that nothing disturbs past its first operation, of whole lines. -/
theorem runRead_whole (log : StoreLog Value) (call : ReadCall) (v : View Value) {lines : List (Line Value)} {consumed : Nat}
    (houtcomes : ∀ n, call.outcomes n = .whole) (hgrown : ∀ n, call.grown (n + 1) = [])
    (hfree : v.inner.reading = false)
    (hscan : scan log.serde log.formats ((v.file ++ call.grown 0).drop v.inner.fold.consumed) v.inner.fold.consumed =
      .ok ⟨lines, consumed, none⟩) :
    ∃ w, log.runRead call v = some (.ok none, w) ∧ w.file = v.file ++ call.grown 0 ∧
      w.inner.fold.consumed = consumed ∧ w.inner.reading = false := by
  cases hfolded : v.inner.folded <;> cases hobserves : log.observes <;>
    simp [StoreLog.runRead, StoreLog.read, StoreLog.readHeld, StoreLog.readTail, StoreLog.readWhole, Program.run,
      Program.bind_eq, Program.bind, Program.perform, disk, DiskOp.step, houtcomes, hgrown, hfree, hscan, hfolded,
      hobserves, Outcome.answer]

section Sample

open StoreJson (serde serde_roundTrips sampleWrite sampleWrite_valid anyFormats)

noncomputable def sampleLog : StoreLog Nat := ⟨"store.jsonl", anyFormats, serde, true, false⟩

def openRead : ReadCall := ⟨.open, fun _ => [], fun _ => .whole⟩

/-- A tail read of a file another writer appends a line to as it begins. -/
noncomputable def tailRead : ReadCall :=
  ⟨.tail, fun n => if n = 0 then encodeLines serde [sampleWrite] else [], fun _ => .whole⟩

theorem scan_samples (n start : Nat) :
    scan serde anyFormats (encodeLines serde (List.replicate n sampleWrite)) start =
      .ok ⟨linesAt serde start (List.replicate n sampleWrite),
        start + (encodeLines serde (List.replicate n sampleWrite)).length, none⟩ := by
  have hvalid : ∀ w ∈ List.replicate n sampleWrite, w.Valid serde anyFormats StoreJson.Numeral := by
    intro w hw
    rw [List.eq_of_mem_replicate hw]
    exact sampleWrite_valid
  rw [scan, scanLoop_encodeLines serde_roundTrips hvalid, List.nil_append]

theorem Exact.samples {n : Nat} {v : View Nat} (h : Exact sampleLog v)
    (hfile : v.file = encodeLines serde (List.replicate n sampleWrite)) (hconsumed : v.inner.fold.consumed = v.file.length) :
    Tells v.inner.fold (linesAt serde 0 (List.replicate n sampleWrite)) ∧
      v.inner.observed = linesAt serde 0 (List.replicate n sampleWrite) := by
  obtain ⟨-, lines, hscan, htells, hobserved⟩ := h
  rw [hconsumed, List.take_length, hfile] at hscan
  have hlines := (scan_samples n 0).symm.trans hscan
  injection hlines with hlines
  injection hlines with hlines
  rw [hlines]
  exact ⟨htells, hobserved⟩

/-- Two reads of a file with a line, to which a second of the same type and subject is appended in between. -/
theorem incremental_fold_grown : ∃ v r w first second,
    sampleLog.runReads [openRead] ⟨encodeLines serde [sampleWrite], Inner.unread⟩ = some v ∧
      sampleLog.runRead tailRead v = some (r, w) ∧ linesAt serde 0 [sampleWrite, sampleWrite] = [first, second] ∧
      v.inner.fold.latest[("t", "x")]? = some first ∧ v.inner.fold.lines = 1 ∧ v.inner.observed = [first] ∧
      w.inner.fold.latest[("t", "x")]? = some second ∧ w.inner.fold.lines = 2 ∧ w.inner.fold.sources["s"]? = some 2 ∧
      w.inner.observed = [first, second] := by
  obtain ⟨v, r, w, hv, hw, hexact, hexact', -, -, -, -⟩ :=
    incremental_fold_eq_whole_fold sampleLog (encodeLines serde [sampleWrite]) [openRead] tailRead
  have hfirst : scan sampleLog.serde sampleLog.formats (encodeLines serde [sampleWrite] ++ []) 0 =
      .ok ⟨linesAt serde 0 [sampleWrite], (encodeLines serde [sampleWrite]).length, none⟩ := by
    have hscan := scan_samples 1 0
    rw [Nat.zero_add] at hscan
    rw [List.append_nil]
    exact hscan
  obtain ⟨v', hv', hfile, hconsumed, hfree⟩ := runRead_whole sampleLog openRead
    ⟨encodeLines serde [sampleWrite], Inner.unread⟩ (fun _ => rfl) (fun _ => rfl) rfl hfirst
  have hsame : v' = v := by
    simpa [StoreLog.runReads, hv'] using hv
  subst hsame
  rw [show openRead.grown 0 = [] from rfl, List.append_nil] at hfile
  have hfile : v'.file = encodeLines serde [sampleWrite] := hfile
  have hsecond : scan sampleLog.serde sampleLog.formats ((v'.file ++ tailRead.grown 0).drop v'.inner.fold.consumed)
      v'.inner.fold.consumed = .ok ⟨linesAt serde v'.inner.fold.consumed [sampleWrite],
        v'.inner.fold.consumed + (encodeLines serde [sampleWrite]).length, none⟩ := by
    have hdrop : (v'.file ++ tailRead.grown 0).drop v'.inner.fold.consumed = encodeLines serde [sampleWrite] := by
      rw [hconsumed, hfile, List.drop_left]
      rfl
    rw [hdrop]
    exact scan_samples 1 v'.inner.fold.consumed
  obtain ⟨w', hw', hfile', hconsumed', -⟩ := runRead_whole sampleLog tailRead v' (fun _ => rfl) (fun _ => rfl) hfree hsecond
  have hsame : w' = w := by
    rw [hw'] at hw
    cases hw
    rfl
  subst hsame
  have hfile' : w'.file = encodeLines serde [sampleWrite, sampleWrite] := by
    rw [hfile', hfile]
    simp [tailRead, encodeLines]
  obtain ⟨htells, hobserved⟩ := hexact.samples (n := 1) hfile (by rw [hconsumed, hfile])
  obtain ⟨htells', hobserved'⟩ := hexact'.samples (n := 2) hfile' (by
    rw [hconsumed', hfile', hconsumed]
    simp [encodeLines])
  refine ⟨v', r, w', _, _, hv, hw, rfl, ?_, htells.count, hobserved, ?_, htells'.count, ?_, hobserved'⟩
  · exact htells.latest "t" "x"
  · exact htells'.latest "t" "x"
  · exact htells'.sources "s"

end Sample

end DistributedMesh
