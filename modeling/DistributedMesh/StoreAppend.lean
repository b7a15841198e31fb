import DistributedMesh.StoreCalls
import DistributedMesh.StoreSystem

namespace DistributedMesh

open Interleaving

variable {ι Value : Type}

def Handle.owns (h : Handle Value) : Bytes → Prop :=
  Owns h.pending (h.appending.bind Appending.obj)

/-- Every call of the handle goes on safely from here, and its next one finds what it needs. -/
structure HandleOk (h : Handle Value) (file : Bytes) : Prop where
  appending : ∀ a, h.appending = some a →
    a.prog.Safe DiskOp.step (callContract (Owns h.pending a.obj))
      (CallDone h.log h.pending a.obj) (h.view file)
  idle : h.appending = none → CallReady h.log h.pending none (h.view file)
  readers : ∀ k prog, h.readers k = some prog →
    prog.Safe DiskOp.step readerContract (fun _ _ => True) (h.view file)
  fold : FoldOk (h.view file)

theorem HandleOk.unread (log : StoreLog Value) (file : Bytes) :
    HandleOk (Handle.unread log) file := by
  have hfold : FoldOk ((Handle.unread log).view file) := ⟨Nat.zero_le _, Or.inl rfl⟩
  exact ⟨by simp [Handle.unread], fun _ => ⟨by simp [Handle.unread], by simp, hfold⟩,
    by simp [Handle.unread], hfold⟩

/-- Other writers' puts, and the handle's own reads, leave its calls safe. -/
theorem HandleOk.moves {h : Handle Value} {file file' : Bytes} {inner : Inner Value}
    (hok : HandleOk h file)
    (hm : Moves (fun o => ¬ h.owns o) (h.view file) ({ h with inner := inner }.view file')) :
    HandleOk { h with inner := inner } file' := by
  refine ⟨fun a ha => ?_, fun hn => ?_, fun k prog hk => ?_, hm.fold hok.fold⟩
  · refine (hok.appending a ha).stable (hm.mono fun o ho ho' => ho ?_)
    dsimp only at ha ho'
    rw [Handle.owns, ha]
    exact ho'
  · refine (hok.idle hn).moves hm fun o ho hno => hno ?_
    exact ho.unpending
  · exact (hok.readers k prog hk).stable (hm.mono fun _ _ => trivial)

/-- The store after appending the objects `known` to a file that began as `first`. -/
structure StoreOk (first : Bytes) (known : List Bytes) (store : Store ι Value) : Prop where
  handles : ∀ i, HandleOk (store.handle i) store.file
  owned : ∀ i o, (store.handle i).owns o → o ∈ known
  apart : ∀ i j o, (store.handle i).owns o → (store.handle j).owns o → i = j
  framed : ∀ o ∈ known, Framed o
  once : ∀ o ∈ known, (segments store.file).count o ≤ 1
  answered : ∀ o, (o, .ok ()) ∈ store.answers → o ∈ known ∧ o ∈ terminated store.file
  fresh : ∀ o, Framed o → o ∉ known → o ∉ segments first → o ∉ segments store.file

theorem StoreOk.opened (file : Bytes) (logs : ι → StoreLog Value) :
    StoreOk file [] (Store.opened file logs) := by
  have hnone : ∀ i o, ¬ ((Store.opened file logs).handle i).owns o := by
    intro i o ho
    simp [Store.opened, Handle.unread, Handle.owns, Owns] at ho
  exact ⟨fun i => HandleOk.unread _ _, fun i o ho => absurd ho (hnone i o),
    fun i j o ho => absurd ho (hnone i o), by simp, by simp, by simp [Store.opened],
    fun o _ _ h => h⟩

variable {first : Bytes} {known : List Bytes} {store : Store ι Value}

/-- An object that stands nowhere may be appended. -/
theorem StoreOk.learn {o : Bytes} (hok : StoreOk first known store) (hf : Framed o)
    (habs : o ∉ segments store.file) : StoreOk first (known ++ [o]) store := by
  refine ⟨hok.handles, fun i o' ho' => List.mem_append_left _ (hok.owned i o' ho'), hok.apart,
    fun o' ho' => ?_, fun o' ho' => ?_, fun o' ho' => ?_, fun o' hf' hk hfirst => ?_⟩
  · rcases List.mem_append.mp ho' with hk | hn
    · exact hok.framed o' hk
    · rw [List.mem_singleton.mp hn]
      exact hf
  · rcases List.mem_append.mp ho' with hk | hn
    · exact hok.once o' hk
    · rw [List.mem_singleton.mp hn, List.count_eq_zero.mpr habs]
      exact Nat.zero_le 1
  · obtain ⟨hk, ht⟩ := hok.answered o' ho'
    exact ⟨List.mem_append_left _ hk, ht⟩
  · exact hok.fresh o' hf' (fun hk' => hk (List.mem_append_left _ hk')) hfirst

theorem diskStep_extends {op : DiskOp Value} {outcome : Outcome} {v v' : View Value} {r : op.Res}
    (h : op.step outcome v = some (r, v')) : v.file <+: v'.file := by
  cases op with
  | write bytes =>
    cases Option.some.inj h
    exact List.prefix_append _ _
  | lockReading =>
    by_cases hlock : v.inner.reading = true
    · simp [DiskOp.step, hlock] at h
    · have hv : v' = { v with inner.reading := true } := by
        simpa [DiskOp.step, hlock] using h.symm
      rw [hv]
  | _ =>
    cases Option.some.inj h
    exact List.prefix_refl _

variable [DecidableEq ι]

/-- A handle that puts only what it owns, each object once, keeps every other handle safe. -/
theorem StoreOk.put {i : ι} {h : Handle Value} {file : Bytes}
    {answered : List (Bytes × Except StorageError Unit)} (hok : StoreOk first known store)
    (mine : Bytes → Prop) (hm : Moves mine ((store.handle i).view store.file) (h.view file))
    (hmine : ∀ o, mine o → (store.handle i).owns o)
    (honce : ∀ o, mine o → Framed o → (segments store.file).count o ≤ 1 →
      (segments file).count o ≤ 1)
    (hh : HandleOk h file) (howns : ∀ o, h.owns o → (store.handle i).owns o ∨
      (o ∈ known ∧ ∀ j, ¬ (store.handle j).owns o))
    (hans : ∀ o, (o, .ok ()) ∈ answered → o ∈ known ∧ o ∈ terminated file) :
    StoreOk first known (store.put i h file answered) := by
  have hg : Grows mine store.file file := hm.grows
  have hlift : ∀ j o, ((store.put i h file answered).handle j).owns o → (store.handle j).owns o ∨
      (j = i ∧ o ∈ known ∧ ∀ j, ¬ (store.handle j).owns o) := by
    intro j o ho
    by_cases hj : j = i
    · subst hj
      rw [Store.put_self] at ho
      exact (howns o ho).imp_right fun hnew => ⟨rfl, hnew⟩
    · rw [Store.put_other store hj] at ho
      exact Or.inl ho
  refine ⟨fun j => ?_, fun j o ho => ?_, fun j k o ho ho' => ?_, hok.framed, ?_, ?_, ?_⟩
  · by_cases hj : j = i
    · subst hj
      rw [Store.put_self]
      exact hh
    · rw [Store.put_other store hj]
      refine (hok.handles j).moves ⟨hg.mono fun o ho ho' => hj ?_, fun hf => ?_, id⟩
      · exact hok.apart j i o ho' (hmine o ho)
      · exact hf.extends hg.extends
  · exact (hlift j o ho).elim (hok.owned j o) fun hnew => hnew.2.1
  · rcases hlift j o ho with hj | ⟨rfl, _, hnone⟩
    · rcases hlift k o ho' with hk | ⟨_, _, hnone⟩
      · exact hok.apart j k o hj hk
      · exact absurd hj (hnone j)
    · rcases hlift k o ho' with hk | ⟨rfl, _, _⟩
      · exact absurd hk (hnone k)
      · rfl
  · intro o ho
    by_cases hmo : mine o
    · exact honce o hmo (hok.framed o ho) (hok.once o ho)
    · have hc := count_grows (hok.framed o ho) hmo hg
      exact hc ▸ hok.once o ho
  · intro o ho
    rcases List.mem_append.mp ho with ho | ho
    · exact hans o ho
    · exact ⟨(hok.answered o ho).1, terminated_grows hg (hok.answered o ho).2⟩
  · intro o hf hk hfirst hmo
    have hn : ¬ mine o := fun hmo => hk (hok.owned i o (hmine o hmo))
    exact hok.fresh o hf hk hfirst ((mem_segments_grows hf hn hg).mp hmo)

/-- A handle that begins a call, or ends one, leaves the file alone. -/
theorem StoreOk.begin {i : ι} {h : Handle Value} {answered : List (Bytes × Except StorageError Unit)}
    (hok : StoreOk first known store) (hinner : h.inner = (store.handle i).inner)
    (hh : HandleOk h store.file) (howns : ∀ o, h.owns o → (store.handle i).owns o ∨
      (o ∈ known ∧ ∀ j, ¬ (store.handle j).owns o))
    (hans : ∀ o, (o, .ok ()) ∈ answered → o ∈ known ∧ o ∈ terminated store.file) :
    StoreOk first known (store.put i h store.file answered) := by
  refine hok.put (fun _ => False) ?_ (fun _ hf => hf.elim) (fun _ hf => hf.elim) hh howns hans
  rw [Handle.view, Handle.view, hinner]
  exact Moves.refl _

theorem begin_eq {h h' : Handle Value} {a : Appending Value} (hb : h.begin a = some h') :
    h.appending = none ∧ h' = { h with appending := some a } := by
  unfold Handle.begin at hb
  split at hb
  next => simp at hb
  next hn => exact ⟨hn, (Option.some.inj hb).symm⟩

theorem beginRead_eq {h h' : Handle Value} {k : Nat} {prog : Disk Value Unit}
    (hb : h.beginRead k prog = some h') :
    h' = { h with readers := Function.update h.readers k (some prog) } := by
  unfold Handle.beginRead at hb
  split at hb
  next => simp at hb
  next => exact (Option.some.inj hb).symm

theorem readers_update {h : Handle Value} {file : Bytes} {inner : Inner Value} {k : Nat}
    {next : Option (Disk Value Unit)} (hok : HandleOk { h with inner := inner } file)
    (hnext : ∀ prog, next = some prog → prog.Safe DiskOp.step readerContract (fun _ _ => True)
      ({ h with inner := inner }.view file)) :
    HandleOk { h with inner := inner, readers := Function.update h.readers k next } file := by
  refine ⟨hok.appending, hok.idle, fun k' prog hk => ?_, hok.fold⟩
  dsimp only at hk
  by_cases he : k' = k
  · subst he
    rw [Function.update_self] at hk
    exact hnext prog hk
  · rw [Function.update_of_ne he] at hk
    exact hok.readers k' prog hk

/-- A call takes the append lock: no other call holds it, and the call finds what it needs. -/
theorem HandleOk.begin {h : Handle Value} {file : Bytes} {a : Appending Value}
    (hok : HandleOk h file)
    (ha : a.prog.Safe DiskOp.step (callContract (Owns h.pending a.obj))
      (CallDone h.log h.pending a.obj) (h.view file)) :
    HandleOk { h with appending := some a } file := by
  refine ⟨fun a' ha' => ?_, by simp, hok.readers, hok.fold⟩
  cases Option.some.inj ha'
  exact ha

theorem step_append {i : ι} {id : String} {obj : Object} {store' : Store ι Value}
    (hok : StoreOk first known store) (hstep : store.step (.append i id obj) = some store')
    (hk : obj.1 ∉ known) (hfirst : obj.1 ∉ segments first) :
    StoreOk first (known ++ [obj.1]) store' := by
  obtain ⟨h, hb, hs⟩ := Option.bind_eq_some_iff.mp hstep
  cases Option.some.inj hs
  obtain ⟨hidle, rfl⟩ := begin_eq hb
  have habs := hok.fresh obj.1 obj.2 hk hfirst
  have hready : CallReady (store.handle i).log (store.handle i).pending (some obj.1)
      ((store.handle i).view store.file) := by
    have hcall := (hok.handles i).idle hidle
    refine ⟨hcall.unproven, fun o ho => ?_, hcall.fold⟩
    cases ho
    exact ⟨obj.2, habs, fun p hp he => hk (he ▸ hok.owned i p.obj (Or.inr ⟨p, hp, rfl⟩))⟩
  refine (hok.learn obj.2 habs).begin rfl ((hok.handles i).begin (appendObject_call hready)) ?_
    (by simp)
  rintro o (ho | ho)
  · cases ho
    exact Or.inr ⟨by simp, fun j hj => hk (hok.owned j obj.1 hj)⟩
  · exact Or.inl (Or.inr ho)

theorem step_reconcile {i : ι} {store' : Store ι Value} (hok : StoreOk first known store)
    (hstep : store.step (.reconcile i) = some store') : StoreOk first known store' := by
  obtain ⟨h, hb, hs⟩ := Option.bind_eq_some_iff.mp hstep
  cases Option.some.inj hs
  obtain ⟨hidle, rfl⟩ := begin_eq hb
  refine hok.begin rfl ((hok.handles i).begin (reconcile_call ((hok.handles i).idle hidle))) ?_
    (by simp)
  rintro o (ho | ho)
  · simp at ho
  · exact Or.inl (Or.inr ho)

/-- A read that begins where every read finds the fold at a line's start. -/
theorem step_beginRead {i : ι} {k : Nat} {prog : Disk Value Unit} {h : Handle Value}
    (hok : StoreOk first known store) (hb : (store.handle i).beginRead k prog = some h)
    (hprog : prog.Safe DiskOp.step readerContract (fun _ _ => True)
      ((store.handle i).view store.file)) :
    StoreOk first known (store.put i h store.file []) := by
  rw [beginRead_eq hb]
  refine hok.begin rfl ?_ (fun o ho => Or.inl ho) (by simp)
  refine readers_update (hok.handles i) fun prog' hp => ?_
  cases Option.some.inj hp
  exact hprog

theorem lines_keeps {log : StoreLog Value} {v : View Value} (h : FoldOk v) :
    (log.lines).Safe DiskOp.step readerContract (fun _ _ => True) v := by
  refine Program.Safe.bind ((readWhole_keeps .tail ⟨Nat.zero_le _, Or.inl rfl⟩ h).mono ?_)
  intro r t _
  cases r with
  | error e => exact fun _ _ => trivial
  | ok out => exact fun _ _ => trivial

theorem step_appender {i : ι} {outcome : Outcome} {store' : Store ι Value}
    (hok : StoreOk first known store) (hstep : store.step (.appender i outcome) = some store') :
    StoreOk first known store' := by
  obtain ⟨⟨h, file, answered⟩, hb, hs⟩ := Option.bind_eq_some_iff.mp hstep
  cases Option.some.inj hs
  have hh := hok.handles i
  unfold Handle.appender at hb
  split at hb
  next => simp at hb
  next obj pending r ha =>
    cases Option.some.inj hb
    obtain ⟨hkept, hdone⟩ := hh.appending _ ha _ (Moves.refl _)
    have hown : ∀ o, Owns (store.handle i).pending obj o → (store.handle i).owns o := by
      intro o ho
      rw [Handle.owns, ha]
      exact ho
    refine hok.begin rfl ⟨by simp, fun _ => ⟨?_, by simp, hh.fold⟩, hh.readers, hh.fold⟩ ?_ ?_
    · exact fun p hp => (hkept p hp).2
    · rintro o (ho | ⟨p, hp, rfl⟩)
      · simp at ho
      · exact Or.inl (hown _ (hkept p hp).1)
    · intro o ho
      obtain ⟨o', ho', he⟩ := List.mem_map.mp ho
      cases he
      have ho' : obj = some o := by simpa using ho'
      exact ⟨hok.owned i o (hown o (Or.inl ho')), hdone o ho' rfl⟩
  next obj op next ha =>
    cases he : op.step outcome ((store.handle i).view store.file) with
    | none => simp [he] at hb
    | some out =>
      obtain ⟨r, v⟩ := out
      rw [he] at hb
      cases Option.some.inj hb
      have hsafe := hh.appending _ ha _ (Moves.refl _) outcome trivial
      rw [he] at hsafe
      obtain ⟨⟨hm, honce⟩, hnext⟩ := hsafe
      refine hok.put (Owns (store.handle i).pending obj) hm ?_ honce ?_ ?_ (by simp)
      · intro o ho
        rw [Handle.owns, ha]
        exact ho
      · refine ⟨fun a ha' => ?_, by simp, fun k prog hk => ?_, hm.fold hh.fold⟩
        · cases Option.some.inj ha'
          exact hnext
        · exact (hh.readers k prog hk).stable (hm.mono fun _ _ => trivial)
      · intro o ho
        rw [Handle.owns, ha]
        exact Or.inl ho

theorem step_reader {i : ι} {k : Nat} {outcome : Outcome} {store' : Store ι Value}
    (hok : StoreOk first known store) (hstep : store.step (.reader i k outcome) = some store') :
    StoreOk first known store' := by
  obtain ⟨⟨h, file⟩, hb, hs⟩ := Option.bind_eq_some_iff.mp hstep
  cases Option.some.inj hs
  have hh := hok.handles i
  unfold Handle.reader at hb
  split at hb
  next => simp at hb
  next hr =>
    cases Option.some.inj hb
    exact hok.begin rfl (readers_update hh (by simp)) (fun o ho => Or.inl ho) (by simp)
  next op next hr =>
    cases he : op.step outcome ((store.handle i).view store.file) with
    | none => simp [he] at hb
    | some out =>
      obtain ⟨r, v⟩ := out
      rw [he] at hb
      cases Option.some.inj hb
      have hsafe := hh.readers k _ hr _ (Moves.refl _) outcome trivial
      rw [he] at hsafe
      obtain ⟨⟨hm, honce⟩, hnext⟩ := hsafe
      refine hok.put (fun _ => False) hm (fun _ hf => hf.elim) honce ?_ (fun o ho => Or.inl ho)
        (by simp)
      refine readers_update (hh.moves (hm.mono fun _ hf => hf.elim)) fun prog hp => ?_
      cases Option.some.inj hp
      exact hnext

/-- One event keeps the store safe, given that the object it appends is new. -/
theorem step_ok {e : Event ι} {store' : Store ι Value} (hok : StoreOk first known store)
    (hstep : store.step e = some store') (hk : ∀ o ∈ e.appended, o ∉ known)
    (hfirst : ∀ o ∈ e.appended, o ∉ segments first) :
    StoreOk first (known ++ e.appended) store' := by
  cases e with
  | append i id obj =>
    exact step_append hok hstep (hk _ (by simp [Event.appended])) (hfirst _ (by simp [Event.appended]))
  | reconcile i =>
    change StoreOk first (known ++ []) store'
    rw [List.append_nil]
    exact step_reconcile hok hstep
  | read i k kind =>
    change StoreOk first (known ++ []) store'
    rw [List.append_nil]
    obtain ⟨h, hb, hs⟩ := Option.bind_eq_some_iff.mp hstep
    cases Option.some.inj hs
    refine step_beginRead hok hb (Program.Safe.bind ((read_keeps kind (hok.handles i).fold).mono ?_))
    exact fun _ _ _ _ _ => trivial
  | lines i k =>
    change StoreOk first (known ++ []) store'
    rw [List.append_nil]
    obtain ⟨h, hb, hs⟩ := Option.bind_eq_some_iff.mp hstep
    cases Option.some.inj hs
    refine step_beginRead hok hb (Program.Safe.bind ((lines_keeps (hok.handles i).fold).mono ?_))
    exact fun _ _ _ _ _ => trivial
  | appender i outcome =>
    change StoreOk first (known ++ []) store'
    rw [List.append_nil]
    exact step_appender hok hstep
  | reader i k outcome =>
    change StoreOk first (known ++ []) store'
    rw [List.append_nil]
    exact step_reader hok hstep

theorem run_ok {events : List (Event ι)} {store' : Store ι Value} (hok : StoreOk first known store)
    (hrun : store.run events = some store') (hd : (known ++ appended events).Nodup)
    (hfirst : ∀ o ∈ appended events, o ∉ segments first) :
    StoreOk first (known ++ appended events) store' := by
  induction events generalizing known store with
  | nil =>
    cases Option.some.inj hrun
    simpa [appended] using hok
  | cons e events ih =>
    have hsplit : appended (e :: events) = e.appended ++ appended events := by simp [appended]
    rw [hsplit, ← List.append_assoc] at hd ⊢
    rw [hsplit] at hfirst
    obtain ⟨mid, hstep, hrest⟩ := Option.bind_eq_some_iff.mp hrun
    have hk : ∀ o ∈ e.appended, o ∉ known :=
      fun o ho hk => (List.nodup_append.mp (List.nodup_append.mp hd).1).2.2 o hk o ho rfl
    have hmid := step_ok hok hstep hk fun o ho => hfirst o (List.mem_append_left _ ho)
    exact ih hmid hrest hd fun o ho => hfirst o (List.mem_append_right _ ho)

/-- No event changes or removes a byte of the file. -/
theorem step_extends {e : Event ι} {store' : Store ι Value} (hstep : store.step e = some store') :
    store.file <+: store'.file := by
  cases e with
  | appender i outcome =>
    obtain ⟨⟨h, file, answered⟩, hb, hs⟩ := Option.bind_eq_some_iff.mp hstep
    cases Option.some.inj hs
    unfold Handle.appender at hb
    split at hb
    next => simp at hb
    next =>
      cases Option.some.inj hb
      exact List.prefix_refl _
    next op next _ =>
      cases he : op.step outcome ((store.handle i).view store.file) with
      | none => simp [he] at hb
      | some out =>
        rw [he] at hb
        cases Option.some.inj hb
        exact diskStep_extends he
  | reader i k outcome =>
    obtain ⟨⟨h, file⟩, hb, hs⟩ := Option.bind_eq_some_iff.mp hstep
    cases Option.some.inj hs
    unfold Handle.reader at hb
    split at hb
    next => simp at hb
    next =>
      cases Option.some.inj hb
      exact List.prefix_refl _
    next op next _ =>
      cases he : op.step outcome ((store.handle i).view store.file) with
      | none => simp [he] at hb
      | some out =>
        rw [he] at hb
        cases Option.some.inj hb
        exact diskStep_extends he
  | _ =>
    obtain ⟨h, hb, hs⟩ := Option.bind_eq_some_iff.mp hstep
    cases Option.some.inj hs
    exact List.prefix_refl _

theorem run_extends {events : List (Event ι)} {store' : Store ι Value}
    (hrun : store.run events = some store') : store.file <+: store'.file := by
  induction events generalizing store with
  | nil =>
    cases Option.some.inj hrun
    exact List.prefix_refl _
  | cons e events ih =>
    obtain ⟨mid, hstep, hrest⟩ := Option.bind_eq_some_iff.mp hrun
    exact (step_extends hstep).trans (ih hrest)

/-- Appends are exactly-once: an object answered `Ok` stands as one segment and a newline ends it,
no object ever stands as two, and no byte of the file is changed or removed. -/
theorem append_exactly_once {logs : ι → StoreLog Value} {file : Bytes} {events : List (Event ι)}
    (hrun : (Store.opened file logs).run events = some store) (hd : (appended events).Nodup)
    (hfresh : ∀ obj ∈ appended events, obj ∉ segments file) :
    (∀ obj, (obj, .ok ()) ∈ store.answers →
      (segments store.file).count obj = 1 ∧ obj ∈ terminated store.file) ∧
    (∀ obj ∈ appended events, (segments store.file).count obj ≤ 1) ∧
    file <+: store.file ∧
    ∀ rest later, store.run rest = some later → store.file <+: later.file := by
  have hok := run_ok (StoreOk.opened file logs) hrun (by simpa using hd) hfresh
  rw [List.nil_append] at hok
  refine ⟨fun obj hobj => ?_, hok.once, run_extends hrun, fun rest later h => run_extends h⟩
  obtain ⟨hk, hend⟩ := hok.answered obj hobj
  have hle := hok.once obj hk
  have hpos := List.count_pos_iff.mpr (List.mem_of_mem_dropLast hend)
  exact ⟨by omega, hend⟩

/-- A log opened to append, no line of it read. -/
def appendLog : StoreLog Unit :=
  ⟨"store.log", ⟨∅, true⟩, ⟨fun s => s, fun _ => .error "unread"⟩, false, true⟩

def tinyObject : Object := ⟨utf8 "\x7b\"len\":10\x7d", by decide⟩

/-- A write that fails after one byte, and is written again. -/
def retriedAppend : List (Event Bool) :=
  [.append true "a" tinyObject, .appender true .whole, .appender true (.failed 1 "disk"),
    .appender true .whole, .appender true .whole, .appender true .whole, .appender true .whole]

theorem append_exactly_once_retried : ∃ store,
    (Store.opened [] fun _ : Bool => appendLog).run retriedAppend = some store ∧
    (segments store.file).count tinyObject.1 = 1 ∧ tinyObject.1 ∈ terminated store.file := by
  have hrun : ((Store.opened [] fun _ : Bool => appendLog).run retriedAppend).map
      (fun store => store.answers) = some [(tinyObject.1, .ok ())] := by decide +kernel
  obtain ⟨store, hs, ha⟩ := Option.map_eq_some_iff.mp hrun
  have honce := append_exactly_once hs (by decide) (by decide)
  exact ⟨store, hs, honce.1 tinyObject.1 (by rw [ha]; simp)⟩

end DistributedMesh
