import DistributedMesh.ReceiveOrder

namespace DistributedMesh.Gossip

open Std (ExtTreeMap ExtTreeSet)
open LexCode KeyedMaps GuardedRuns

namespace ReceiveOrder

variable {o : ReceiveOrder} {f : Frame} {mesh : String} {p : PublisherId}

/-- The publisher is the one installed of the mesh. -/
def Installed (o : ReceiveOrder) (mesh : String) (p : PublisherId) : Prop :=
  ∃ h, o.installed[mesh]? = some h ∧ h.publisher = p

instance (o : ReceiveOrder) (mesh : String) (p : PublisherId) : Decidable (o.Installed mesh p) :=
  decidable_of_iff ((o.installed[mesh]?.any fun h => h.publisher = p) = true) (by simp [Installed, Option.any_eq_true])

/-- A floor is not lower than another. -/
def NotBelow (before after : Option Nat) : Prop := ∀ v, before = some v → ∃ w, after = some w ∧ v ≤ w

theorem NotBelow.refl (v : Option Nat) : NotBelow v v := fun w hw => ⟨w, hw, Nat.le_refl w⟩

theorem NotBelow.trans {a b c : Option Nat} (hab : NotBelow a b) (hbc : NotBelow b c) : NotBelow a c := by
  intro v hv
  obtain ⟨w, hw, hvw⟩ := hab v hv
  obtain ⟨x, hx, hwx⟩ := hbc w hw
  exact ⟨x, hx, Nat.le_trans hvw hwx⟩

theorem notBelow_max_left (a b : Option Nat) : NotBelow a (max a b) := by
  intro v hv
  subst hv
  cases b with
  | none => exact ⟨v, rfl, Nat.le_refl v⟩
  | some w => exact ⟨max v w, rfl, Nat.le_max_left v w⟩

theorem notBelow_max_mono {a b c : Option Nat} (h : NotBelow b c) : NotBelow (max a b) (max a c) := by
  intro v hv
  cases b with
  | none =>
    cases a with
    | none => cases hv
    | some u => exact notBelow_max_left (some u) c v hv
  | some w =>
    obtain ⟨x, rfl, hwx⟩ := h w rfl
    cases a with
    | none =>
      cases hv
      exact ⟨x, rfl, hwx⟩
    | some u =>
      cases hv
      exact ⟨max u x, rfl, by omega⟩

/-- What is published is this node's. -/
def Own (own : String × PublisherId) (o : ReceiveOrder) : Prop :=
  ∀ (mesh : String) (e : PublisherId × Nat), o.published[mesh]? = some e → mesh = own.1 ∧ e.1 = own.2

@[simp] theorem installed_hold (o : ReceiveOrder) (source : Source) (key : Key) :
    (o.hold source key).installed = o.installed := by
  unfold hold
  split <;> rfl

@[simp] theorem published_hold (o : ReceiveOrder) (source : Source) (key : Key) :
    (o.hold source key).published = o.published := by
  unfold hold
  split <;> rfl

@[simp] theorem seen_hold (o : ReceiveOrder) (source : Source) (key : Key) :
    (o.hold source key).lifecycleSeen = o.lifecycleSeen := by
  unfold hold
  split <;> rfl

theorem foldl_hold (keys : List (Source × Key)) (o : ReceiveOrder) :
    (keys.foldl (fun o k => o.hold k.1 k.2) o).installed = o.installed ∧
      (keys.foldl (fun o k => o.hold k.1 k.2) o).published = o.published ∧
      (keys.foldl (fun o k => o.hold k.1 k.2) o).lifecycleSeen = o.lifecycleSeen := by
  induction keys generalizing o with
  | nil => exact ⟨rfl, rfl, rfl⟩
  | cons k keys ih =>
    obtain ⟨hinstalled, hpublished, hseen⟩ := ih (o.hold k.1 k.2)
    rw [List.foldl_cons, hinstalled, hpublished, hseen]
    exact ⟨installed_hold o k.1 k.2, published_hold o k.1 k.2, seen_hold o k.1 k.2⟩

/-- A publication moves no key when it is judged. -/
theorem admitFrame_publication {named : String × PublisherId × Nat} (h : publicationNamed f = some named) (o : ReceiveOrder) :
    (o.admitFrame f).1 = o := by
  unfold admitFrame
  rw [h]
  dsimp only
  split
  next => rfl
  next => split <;> rfl

theorem admitFrame_keeps (o : ReceiveOrder) (f : Frame) :
    (o.admitFrame f).1.installed = o.installed ∧ (o.admitFrame f).1.published = o.published ∧
      (o.admitFrame f).1.lifecycleSeen = o.lifecycleSeen := by
  cases hnamed : publicationNamed f with
  | some named =>
    rw [admitFrame_publication hnamed]
    exact ⟨rfl, rfl, rfl⟩
  | none =>
    unfold admitFrame
    rw [hnamed]
    dsimp only
    split
    next => exact ⟨rfl, rfl, rfl⟩
    next => exact foldl_hold _ o

/-- A refused frame changes nothing. -/
theorem admitFrame_error {e : Earlier} (h : (o.admitFrame f).2 = .error e) : (o.admitFrame f).1 = o := by
  cases hnamed : publicationNamed f with
  | some named => exact admitFrame_publication hnamed o
  | none =>
    unfold admitFrame at h ⊢
    rw [hnamed] at h ⊢
    dsimp only at h ⊢
    split at h
    next => rfl
    next => cases h

theorem floor_le_of_belowInstalled {frame offered : String} {v : Nat}
    (h : o.belowInstalled frame mesh p v offered = .ok ()) :
    NotBelow (o.floor mesh p) (some v) := by
  intro w hw
  unfold belowInstalled at h
  rw [hw] at h
  dsimp only at h
  split at h
  next => cases h
  next hle => exact ⟨v, rfl, Nat.le_of_not_lt hle⟩

/-- A publication that is taken is not below its publisher's floor. -/
theorem floor_le_of_admitFrame {v : Nat} (hnamed : publicationNamed f = some (mesh, p, v)) (h : (o.admitFrame f).2 = .ok ()) :
    NotBelow (o.floor mesh p) (some v) := by
  unfold admitFrame at h
  rw [hnamed] at h
  dsimp only at h
  split at h
  next => exact floor_le_of_belowInstalled h
  next =>
    split at h
    next => cases h
    next => exact floor_le_of_belowInstalled h

theorem floor_congr {o' : ReceiveOrder} (hinstalled : o'.installed = o.installed) (hpublished : o'.published = o.published)
    (mesh : String) (p : PublisherId) : o'.floor mesh p = o.floor mesh p := by
  unfold floor
  rw [hinstalled, hpublished]

theorem identity_keeps (o : ReceiveOrder) (f : Frame) :
    (o.admitLifecycleIdentity f).1.installed = o.installed ∧ (o.admitLifecycleIdentity f).1.published = o.published := by
  unfold admitLifecycleIdentity
  split
  next => exact ⟨rfl, rfl⟩
  next => split <;> exact ⟨rfl, rfl⟩

theorem admitted_state (o : ReceiveOrder) (f : Frame) : (o.admitted f).1 = ((o.admitLifecycleIdentity f).1.admitFrame f).1 := by
  unfold admitted
  dsimp only
  split <;> rename_i hadmits <;> rw [hadmits]

theorem admitted_keeps (o : ReceiveOrder) (f : Frame) :
    (o.admitted f).1.installed = o.installed ∧ (o.admitted f).1.published = o.published := by
  obtain ⟨hinstalled, hpublished⟩ := identity_keeps o f
  obtain ⟨hinstalled', hpublished', _⟩ := admitFrame_keeps (o.admitLifecycleIdentity f).1 f
  rw [admitted_state]
  exact ⟨hinstalled'.trans hinstalled, hpublished'.trans hpublished⟩

theorem admitFrame_ok_of_admitted (h : (o.admitted f).2 = true) : ((o.admitLifecycleIdentity f).1.admitFrame f).2 = .ok () := by
  unfold admitted at h
  dsimp only at h
  split at h
  next hadmits => rw [hadmits]
  next => cases h

@[simp] theorem published_projection (o : ReceiveOrder) (mesh : String) (p : PublisherId) (v : Nat) (stamp : Option Nat)
    (full : Full) (snapshotId : Option Nat) :
    (o.installedProjection mesh p v stamp full snapshotId).published = o.published := by
  unfold installedProjection installs
  cases stamp with
  | none => rfl
  | some t => exact published_hold o _ _

@[simp] theorem seen_projection (o : ReceiveOrder) (mesh : String) (p : PublisherId) (v : Nat) (stamp : Option Nat)
    (full : Full) (snapshotId : Option Nat) :
    (o.installedProjection mesh p v stamp full snapshotId).lifecycleSeen = o.lifecycleSeen := by
  unfold installedProjection installs
  cases stamp with
  | none => rfl
  | some t => exact seen_hold o _ _

/-- The mesh's entry is the projection's, every other as it was. -/
theorem installed_projection (o : ReceiveOrder) (mesh : String) (p : PublisherId) (v : Nat) (stamp : Option Nat)
    (full : Full) (snapshotId : Option Nat) (m : String) :
    ((o.installedProjection mesh p v stamp full snapshotId).installed[m]?).map (fun h => (h.publisher, h.version)) =
      if mesh = m then some (p, v) else (o.installed[m]?).map fun h => (h.publisher, h.version) := by
  have hentries : (o.installs mesh p v stamp).installed = o.installed.insert mesh ⟨p, v, none, none⟩ := by
    unfold installs
    cases stamp with
    | none => rfl
    | some t =>
      dsimp only
      rw [installed_hold]
  unfold installedProjection
  dsimp only
  rw [hentries, getElem?_insert_eq]
  split
  next => rfl
  next hne => rw [getElem?_insert_eq, if_neg hne]

/-- The installed part of a floor. -/
theorem installed_part (o : ReceiveOrder) (mesh : String) (p : PublisherId) :
    (o.installed[mesh]?.filter fun h => h.publisher = p).map InstalledSource.version =
      (((o.installed[mesh]?).map fun h => (h.publisher, h.version)).filter fun e => e.1 = p).map Prod.snd := by
  cases o.installed[mesh]? with
  | none => rfl
  | some h =>
    rw [Option.map_some, Option.filter_some, Option.filter_some]
    split <;> rfl

/-- A projection that is not below its publisher's floor lowers no floor of a publisher that stays installed. -/
theorem floor_projection {v : Nat} (stamp : Option Nat) (full : Full) (snapshotId : Option Nat) {m : String}
    {q : PublisherId} (hfloor : NotBelow (o.floor mesh p) (some v))
    (hstays : (o.installedProjection mesh p v stamp full snapshotId).Installed m q) :
    NotBelow (o.floor m q) ((o.installedProjection mesh p v stamp full snapshotId).floor m q) := by
  obtain ⟨h, hinstalled, rfl⟩ := hstays
  have hentry := installed_projection o mesh p v stamp full snapshotId m
  rw [hinstalled, Option.map_some] at hentry
  unfold floor
  rw [published_projection, installed_part, installed_part, hinstalled, Option.map_some]
  by_cases hmesh : mesh = m
  · subst hmesh
    rw [if_pos rfl] at hentry
    obtain ⟨hp, hv⟩ := Prod.mk.inj (Option.some.inj hentry)
    rw [← hp] at hfloor
    have hself : ((some (h.publisher, h.version)).filter fun e : PublisherId × Nat => e.1 = h.publisher).map Prod.snd =
        some v := by
      rw [Option.filter_some, if_pos (decide_eq_true rfl), Option.map_some, hv]
    rw [hself, ← installed_part]
    exact NotBelow.trans hfloor (notBelow_max_left (some v) _)
  · rw [if_neg hmesh] at hentry
    rw [hentry]
    exact NotBelow.refl _

theorem floor_published {own : String × PublisherId} (hown : o.Own own) (v : Nat) (m : String) (q : PublisherId) :
    NotBelow (o.floor m q) ((o.publishedAs own.1 own.2 v).floor m q) := by
  refine notBelow_max_mono ?_
  unfold publishedAs
  dsimp only
  rw [getElem?_insert_eq]
  by_cases hmesh : own.1 = m
  · rw [if_pos hmesh, ← hmesh]
    intro w hw
    obtain ⟨e, he, rfl⟩ := Option.map_eq_some_iff.mp hw
    obtain ⟨he, hq⟩ := Option.filter_eq_some_iff.mp he
    have hq := of_decide_eq_true hq
    have hsame := (hown own.1 e he).2
    rw [Option.filter_some, if_pos (decide_eq_true (hsame.symm.trans hq)), he]
    dsimp only
    rw [if_pos hsame]
    exact ⟨max e.2 v, rfl, Nat.le_max_left e.2 v⟩
  · rw [if_neg hmesh]
    exact NotBelow.refl _

/-- What a call does to the source held: nothing, a projection that is not below its publisher's floor, or this node's own
publication. -/
theorem step_cases (own : String × PublisherId) (o : ReceiveOrder) (c : Call) :
    ((o.step own c).installed = o.installed ∧ (o.step own c).published = o.published) ∨
    (∃ (before : ReceiveOrder) (mesh : String) (p : PublisherId) (v : Nat) (stamp : Option Nat) (full : Full)
      (snapshotId : Option Nat), before.installed = o.installed ∧ before.published = o.published ∧
        NotBelow (before.floor mesh p) (some v) ∧
        o.step own c = before.installedProjection mesh p v stamp full snapshotId) ∨
    ∃ v, o.step own c = o.publishedAs own.1 own.2 v := by
  cases c with
  | hears f completed =>
    obtain ⟨hinstalled, hpublished⟩ := admitted_keeps o f.data
    unfold step
    dsimp only
    cases completed with
    | none => exact .inl ⟨hinstalled, hpublished⟩
    | some full =>
      dsimp only
      split
      next htaken =>
        have hok := admitFrame_ok_of_admitted htaken
        obtain ⟨hinstalled', hpublished'⟩ := identity_keeps o f.data
        have hfloor : ∀ mesh p v, publicationNamed f.data = some (mesh, p, v) →
            NotBelow ((o.admitted f.data).1.floor mesh p) (some v) := by
          intro mesh p v hnamed
          rw [floor_congr (hinstalled.trans hinstalled'.symm) (hpublished.trans hpublished'.symm)]
          exact floor_le_of_admitFrame hnamed hok
        unfold handle
        split
        next mesh publisher _ version stamp snapshotId _ _ _ _ _ hdata =>
          rw [hdata] at hfloor hinstalled hpublished ⊢
          have hfloor := hfloor mesh publisher version rfl
          dsimp only
          split
          next owner _ _ =>
            exact .inr (.inl ⟨(o.admitted _).1.publicationInstalled mesh publisher version owner snapshotId,
              _, _, _, _, _, _, hinstalled, hpublished, hfloor, rfl⟩)
          next => exact .inr (.inl ⟨_, _, _, _, _, _, _, hinstalled, hpublished, hfloor, rfl⟩)
        next mesh source _ version stamp _ _ _ _ hdata =>
          rw [hdata] at hfloor hinstalled hpublished ⊢
          exact .inr (.inl ⟨_, _, _, _, _, _, _, hinstalled, hpublished, hfloor mesh source version rfl, rfl⟩)
        next => exact .inl ⟨hinstalled, hpublished⟩
      next => exact .inl ⟨hinstalled, hpublished⟩
  | reads mesh publisher version completed =>
    unfold step
    dsimp only
    split
    next full hread =>
      exact .inr (.inl ⟨o, _, _, _, _, _, _, rfl, rfl, floor_le_of_belowInstalled hread, rfl⟩)
    next => exact .inl ⟨rfl, rfl⟩
  | publishes version => exact .inr (.inr ⟨version, rfl⟩)

theorem own_step {own : String × PublisherId} (hown : o.Own own) (c : Call) : (o.step own c).Own own := by
  intro m e he
  obtain ⟨_, hpublished⟩ | ⟨before, mesh, p, v, stamp, full, snapshotId, _, hpublished, _, hstep⟩ | ⟨v, hstep⟩ :=
    step_cases own o c
  · rw [hpublished] at he
    exact hown m e he
  · rw [hstep, published_projection, hpublished] at he
    exact hown m e he
  · rw [hstep] at he
    unfold publishedAs at he
    dsimp only at he
    rw [getElem?_insert_eq] at he
    split at he
    next hmesh =>
      cases he
      exact ⟨hmesh.symm, rfl⟩
    next => exact hown m e he

/-- A call lowers no floor of a publisher that is installed after it. -/
theorem floor_step {own : String × PublisherId} (hown : o.Own own) {c : Call} {m : String} {q : PublisherId}
    (hstays : (o.step own c).Installed m q) : NotBelow (o.floor m q) ((o.step own c).floor m q) := by
  obtain ⟨hinstalled, hpublished⟩ |
    ⟨before, mesh, p, v, stamp, full, snapshotId, hinstalled, hpublished, hfloor, hstep⟩ | ⟨v, hstep⟩ := step_cases own o c
  · rw [floor_congr hinstalled hpublished]
    exact NotBelow.refl _
  · rw [hstep] at hstays ⊢
    rw [← floor_congr hinstalled hpublished]
    exact floor_projection stamp full snapshotId hfloor hstays
  · rw [hstep]
    exact floor_published hown v m q

theorem floor_run {own : String × PublisherId} (hown : o.Own own) {m : String} {q : PublisherId} {calls : List Call}
    (hstays : RunOk (step own) (fun o c => (o.step own c).Installed m q) o calls) :
    NotBelow (o.floor m q) ((calls.foldl (step own) o).floor m q) :=
  (hstays.invariant (I := fun after => after.Own own ∧ NotBelow (o.floor m q) (after.floor m q))
    (fun _ c h hinstalled => ⟨own_step h.1 c, h.2.trans (floor_step h.1 hinstalled)⟩) ⟨hown, NotBelow.refl _⟩).2

theorem own_empty (own : String × PublisherId) : empty.Own own := by
  intro m e he
  rw [empty] at he
  cases he.symm.trans ExtTreeMap.getElem?_empty

/-- The identities seen, and the one of a lifecycle fact that is offered. -/
theorem seen_identity (o : ReceiveOrder) (f : Frame) (id : LifecycleIdentity) :
    id ∈ (o.admitLifecycleIdentity f).1.lifecycleSeen ↔
      id ∈ o.lifecycleSeen ∨ (lifecycleFact f).map LifecycleOp.identity = some id := by
  unfold admitLifecycleIdentity
  cases lifecycleFact f with
  | none => exact ⟨.inl, fun h => h.resolve_right (by simp)⟩
  | some op =>
    rw [Option.map_some, Option.some_inj]
    dsimp only
    split
    next hseen => exact ⟨.inl, fun h => h.elim (fun hid => hid) fun hid => hid ▸ hseen⟩
    next => rw [mem_insert_set, or_comm, eq_comm]

@[simp] theorem seen_handle (o : ReceiveOrder) (f : Carried) (full : Full) :
    (o.handle f full).lifecycleSeen = o.lifecycleSeen := by
  unfold handle
  split
  next =>
    dsimp only
    rw [seen_projection]
    split <;> rfl
  next => exact seen_projection o _ _ _ _ _ _
  next => rfl

theorem seen_hears (own : String × PublisherId) (o : ReceiveOrder) (f : Carried) (completed : Option Full) :
    (o.step own (.hears f completed)).lifecycleSeen = (o.admitLifecycleIdentity f.data).1.lifecycleSeen := by
  have hadmitted : (o.admitted f.data).1.lifecycleSeen = (o.admitLifecycleIdentity f.data).1.lifecycleSeen := by
    rw [admitted_state]
    exact (admitFrame_keeps _ f.data).2.2
  unfold step
  dsimp only
  split
  next =>
    split
    next => rw [seen_handle, hadmitted]
    next => exact hadmitted
  next => exact hadmitted

/-- An identity that was seen stays seen. -/
theorem seen_step (own : String × PublisherId) (c : Call) {id : LifecycleIdentity} (hid : id ∈ o.lifecycleSeen) :
    id ∈ (o.step own c).lifecycleSeen := by
  cases c with
  | hears f completed =>
    rw [seen_hears]
    exact (seen_identity o f.data id).mpr (.inl hid)
  | reads mesh p v completed =>
    unfold step
    dsimp only
    split
    next =>
      rw [seen_projection]
      exact hid
    next => exact hid
  | publishes v => exact hid

theorem identity_refused {op : LifecycleOp} (hfact : lifecycleFact f = some op) (hseen : op.identity ∈ o.lifecycleSeen) :
    (o.admitLifecycleIdentity f).2 = false := by
  unfold admitLifecycleIdentity
  rw [hfact]
  dsimp only
  rw [if_pos hseen]

/-- A lifecycle identity that was heard is refused from then on. -/
theorem identity_once (own : String × PublisherId) (o : ReceiveOrder) (f : Carried) (completed : Option Full)
    (calls : List Call) {g : Frame} {op : LifecycleOp} (hg : lifecycleFact g = some op)
    (hf : (lifecycleFact f.data).map LifecycleOp.identity = some op.identity) :
    ((calls.foldl (step own) (o.step own (.hears f completed))).admitLifecycleIdentity g).2 = false := by
  refine identity_refused hg (invariant_run (I := fun held : ReceiveOrder => op.identity ∈ held.lifecycleSeen)
    (fun _ c hid => seen_step own c hid) ?_ calls)
  rw [seen_hears]
  exact (seen_identity o f.data op.identity).mpr (.inr hf)

theorem identity_publication {named : String × PublisherId × Nat} (h : publicationNamed f = some named)
    (o : ReceiveOrder) : o.admitLifecycleIdentity f = (o, true) := by
  have hfact : lifecycleFact f = none := by
    cases f <;> first | rfl | cases h
  unfold admitLifecycleIdentity
  rw [hfact]

end ReceiveOrder

/-- A frame of a publication, or a chunk of a read, that completed no image. -/
def Call.Uncompleted : Call → Prop
  | .hears f none => (publicationNamed f.data).isSome
  | .reads _ _ _ none => True
  | _ => False

namespace ReceiveOrder

variable {own : String × PublisherId} {o : ReceiveOrder}

theorem step_uncompleted {c : Call} (h : c.Uncompleted) : o.step own c = o := by
  cases c with
  | hears f completed =>
    cases completed with
    | none =>
      obtain ⟨named, hnamed⟩ := Option.isSome_iff_exists.mp h
      show (o.admitted f.data).1 = o
      rw [admitted_state, identity_publication hnamed, admitFrame_publication hnamed]
    | some full => cases h
  | reads mesh p v completed =>
    cases completed with
    | none =>
      unfold step
      dsimp only
      split
      next hnone => cases hnone
      next => rfl
    | some full => cases h
  | publishes v => cases h

/-- What completed no image leaves no trace in the order. -/
theorem run_uncompleted {erased : Call → Bool} {calls : List Call}
    (h : ∀ c ∈ calls, erased c = true → c.Uncompleted) :
    calls.foldl (step own) o = (calls.filter fun c => !erased c).foldl (step own) o := by
  induction calls generalizing o with
  | nil => rfl
  | cons c calls ih =>
    have hrest := fun d hd => h d (List.mem_cons_of_mem c hd)
    rw [List.foldl_cons, ih hrest]
    cases herased : erased c with
    | true => rw [step_uncompleted (h c List.mem_cons_self herased), List.filter_cons_of_neg (by simp [herased])]
    | false => rw [List.filter_cons_of_pos (by simp [herased]), List.foldl_cons]

/-- Of a frame that is refused only its identity is recorded, whatever image it completes. -/
theorem hears_refused {f : Carried} {e : Earlier} (h : ((o.admitLifecycleIdentity f.data).1.admitFrame f.data).2 = .error e)
    (completed : Option Full) : o.step own (.hears f completed) = (o.admitLifecycleIdentity f.data).1 := by
  have hstate : (o.admitted f.data).1 = (o.admitLifecycleIdentity f.data).1 := by
    rw [admitted_state]
    exact admitFrame_error h
  have htaken : (o.admitted f.data).2 = false := by
    cases htaken : (o.admitted f.data).2 with
    | false => rfl
    | true => cases h.symm.trans (admitFrame_ok_of_admitted htaken)
  unfold step
  dsimp only
  rw [hstate, htaken]
  cases completed <;> rfl

theorem reads_refused {mesh : String} {p : PublisherId} {v : Nat} {e : Earlier} (h : o.admitRead mesh p v = .error e)
    (completed : Option Full) : o.step own (.reads mesh p v completed) = o := by
  unfold step
  dsimp only
  rw [h]

theorem identity_once_of_mem {calls : List Call} {f : Carried} {completed : Option Full} (hf : .hears f completed ∈ calls)
    {g : Frame} {op : LifecycleOp} (hg : lifecycleFact g = some op)
    (hsame : (lifecycleFact f.data).map LifecycleOp.identity = some op.identity) :
    ((calls.foldl (step own) o).admitLifecycleIdentity g).2 = false := by
  obtain ⟨before, after, rfl⟩ := List.append_of_mem hf
  rw [List.foldl_append, List.foldl_cons]
  exact identity_once own _ f completed after hg hsame

/-- The order over every run of calls: a floor never falls while its publisher stays installed, a refused frame changes
nothing, a lifecycle identity is admitted once, and a publication that completed nothing leaves no trace. -/
theorem receive_order_kept (own : String × PublisherId) (before during : List Call) :
    let o := before.foldl (step own) empty
    (∀ mesh p, RunOk (step own) (fun o c => (o.step own c).Installed mesh p) o during →
      NotBelow (o.floor mesh p) ((during.foldl (step own) o).floor mesh p)) ∧
    (∀ f e, (o.admitFrame f).2 = .error e → (o.admitFrame f).1 = o) ∧
    (∀ f e completed, ((o.admitLifecycleIdentity f.data).1.admitFrame f.data).2 = .error e →
      o.step own (.hears f completed) = (o.admitLifecycleIdentity f.data).1) ∧
    (∀ mesh p v e completed, o.admitRead mesh p v = .error e → o.step own (.reads mesh p v completed) = o) ∧
    (∀ f completed g op, .hears f completed ∈ before → lifecycleFact g = some op →
      (lifecycleFact f.data).map LifecycleOp.identity = some op.identity → (o.admitLifecycleIdentity g).2 = false) ∧
    ∀ erased : Call → Bool, (∀ c ∈ before, erased c = true → c.Uncompleted) →
      o = (before.filter fun c => !erased c).foldl (step own) empty := by
  intro o
  have hown : o.Own own := invariant_run (I := fun o : ReceiveOrder => o.Own own)
    (fun _ c h => own_step h c) (own_empty own) before
  refine ⟨fun mesh p hstays => floor_run hown hstays, fun f e h => admitFrame_error h,
    fun f e completed h => hears_refused h completed, fun mesh p v e completed h => reads_refused h completed, ?_,
    fun erased h => run_uncompleted h⟩
  intro f completed g op hf hg hsame
  exact identity_once_of_mem hf hg hsame

/-- The one chunk of a publication of `mesh2`. -/
def publicationOf (version stamp snapshotId : Nat) : Carried :=
  ⟨none, .topologyFull "mesh2" ⟨"b2", "n2"⟩ none version stamp snapshotId 0 1 [] [] []⟩

/-- A chunk that completes nothing is followed by two versions that install; the floor moves from the one to the other. -/
theorem floor_moves_on :
    let before := [.hears (publicationOf 9 900 1) none, .publishes 4, .hears (publicationOf 3 300 2) (some (.new [] [] []))]
    let during := [.hears (publicationOf 5 200 3) (some (.new [] [] [])),
      .hears (publicationOf 4 800 4) (some (.new [] [] []))]
    let o := before.foldl (step ("mesh1", ⟨"b1", "n1"⟩)) empty
    let after := during.foldl (step ("mesh1", ⟨"b1", "n1"⟩)) o
    o.floor "mesh2" ⟨"b2", "n2"⟩ = some 3 ∧ after.floor "mesh2" ⟨"b2", "n2"⟩ = some 5 ∧
      NotBelow (o.floor "mesh2" ⟨"b2", "n2"⟩) (after.floor "mesh2" ⟨"b2", "n2"⟩) := by
  intro before during o after
  have hstays : RunOk (step ("mesh1", ⟨"b1", "n1"⟩))
      (fun o c => (o.step ("mesh1", ⟨"b1", "n1"⟩) c).Installed "mesh2" ⟨"b2", "n2"⟩) o during := by
    decide +kernel
  exact ⟨by decide +kernel, by decide +kernel,
    (receive_order_kept ("mesh1", ⟨"b1", "n1"⟩) before during).1 "mesh2" ⟨"b2", "n2"⟩ hstays⟩

end ReceiveOrder

end DistributedMesh.Gossip
