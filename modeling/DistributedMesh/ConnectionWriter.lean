import DistributedMesh.ConnectionRoutes
import DistributedMesh.GuardedRuns
import Mathlib.Logic.Function.Basic

namespace DistributedMesh.Connections

open GuardedRuns KeyedMaps

/-- The Node RPC control plane's protocol: `rafka-node-rpc/1`. -/
def nodeRpcAlpn : List UInt8 := "rafka-node-rpc/1".toUTF8.toList

/-- A Direct entry on it, its stamp given when it is written. -/
def direct (id : String) (own destination : ConnectionEnd) (state : ConnectionState) (reason : Option String) : NodeConnection :=
  ⟨id, own, destination, .direct, nodeRpcAlpn, state, none, reason, 0⟩

def ConnectionsHeld.activeDirectById (h : ConnectionsHeld) (id : String) : Option NodeConnection :=
  (h.cells.toList.filterMap fun c => c.2.active).find? fun e => e.id == id

/-- The source of the pair a route opened, while it is open. -/
def openPairSource (h : ConnectionsHeld) (route : NodeConnection) : Option ConnectionEnd :=
  match route.kind with
  | .direct => (h.activeDirectById route.id).map NodeConnection.source
  | .proxy => (h.ownActiveProxies.find? fun e => e.id == route.id).map NodeConnection.source

/-- A fact owed on the writer's queue, with the id its row is minted. -/
inductive Fact where
  | directConnected (id : String) (destination : ConnectionEnd)
  | directFailed (id : String) (destination : ConnectionEnd) (reason : String)
  | directBroken (id : String) (destination : ConnectionEnd) (reason : String)
  /-- `record_row`: what the row is, from what is held when it is written. -/
  | row (build : ConnectionsHeld → Option NodeConnection)
  /-- One of `write_drops`. -/
  | drop (id : String) (route : NodeConnection) (reason : String)

def Fact.build (held : ConnectionsHeld) (own : ConnectionEnd) : Fact → Option NodeConnection
  | directConnected id destination => some (direct id own destination .connected none)
  | directFailed id destination reason => some (direct id own destination .failed (some reason))
  | directBroken id destination reason => some (direct id own destination .disconnected (some reason))
  | row build => (build held).map fun r => if r.state ≠ .refused then { r with source := own } else r
  | drop id route reason =>
    (openPairSource held route).map fun source =>
      ⟨id, source, route.destination, route.kind, route.alpn, .disconnected, route.carrier, some reason, 0⟩

/-- What the queue's consumer has in hand between two holds of the gate. -/
inductive Current where
  /-- A stamped row that storage refused, and whether its raw log line is written. -/
  | backoff (row : NodeConnection) (appended : Bool)
  /-- A Direct that landed: the deletes it may owe are settled next. -/
  | settling

/-- A source's connections writer over its storage; the rows that landed, in order, and those of them its held projection
refused. -/
structure ConnectionsWriter where
  own : ConnectionEnd
  store : ConnectionIndex → Option NodeConnection
  history : List NodeConnection
  held : ConnectionsHeld
  lastStamp : UInt64
  queue : List Fact
  current : Option Current
  landed : List NodeConnection
  unapplied : List NodeConnection

/-- What storage does with one write: the raw log's line, and the index. -/
structure Outcome where
  appends : Bool
  puts : Bool
deriving DecidableEq

inductive WriterMove where
  | owes (f : Fact)
  /-- The consumer takes the next fact. -/
  | takes (now : UInt64) (o : Outcome)
  /-- A refused write's backoff ended. -/
  | retries (o : Outcome)
  /-- `settle_owed`, by the consumer after a Direct that landed. -/
  | settlesAfter (now : UInt64) (mint : NodeConnection → String) (outcomes : List Outcome)
  /-- `settle_owed`, by the reconciler. -/
  | settles (now : UInt64) (mint : NodeConnection → String) (outcomes : List Outcome)
  | renames (path name : String)
  | views (view : String → Birth)

/-- The later of two stamps. -/
def laterStamp (a b : UInt64) : UInt64 := if a ≤ b then b else a

theorem laterStamp_toNat (a b : UInt64) : (laterStamp a b).toNat = max a.toNat b.toNat := by
  unfold laterStamp
  split
  next hle =>
    rw [UInt64.le_iff_toNat_le] at hle
    omega
  next hle =>
    rw [UInt64.not_le, UInt64.lt_iff_toNat_lt] at hle
    omega

/-- The Proxy deletes a source owes: each own active Proxy beside an active Direct of its pair. -/
def owedDirectRestored (held : ConnectionsHeld) (now : UInt64) (mint : NodeConnection → String) : List NodeConnection :=
  (held.ownActiveProxies.filter fun p =>
    match held.activeDirectFor p.source.nodeId p.destination.nodeId p.alpn with
    | some (some connection) => !held.namesSupersededDestination connection
    | _ => false).map fun p =>
      { p with
        id := mint p
        state := .disconnected
        reason := some "direct-restored"
        loggedAtMs := laterStamp now (UInt64.ofNat (min (p.loggedAtMs.toNat + 1) (2 ^ 64 - 1))) }

namespace ConnectionsWriter

/-- The stamp after the last one, or the clock's. -/
def stamp (s : ConnectionsWriter) (now : UInt64) : UInt64 := laterStamp now (s.lastStamp + 1)

/-- `apply` answered Ok. -/
def takesRow (h : ConnectionsHeld) (row : NodeConnection) : Bool :=
  match h.apply row with
  | .ok _ => true
  | .error _ => false

/-- A row's write landed, and it is applied. -/
def land (s : ConnectionsWriter) (row : NodeConnection) : ConnectionsWriter :=
  { s with
    store := Function.update s.store row.index (some row)
    held := s.held.applied row
    landed := s.landed ++ [row]
    unapplied := if takesRow s.held row then s.unapplied else s.unapplied ++ [row] }

/-- The raw log's line, where it is written now. -/
def append (s : ConnectionsWriter) (row : NodeConnection) (appends : Bool) : ConnectionsWriter :=
  if appends then { s with history := s.history ++ [row] } else s

/-- One attempt of `land`: the steps that have not landed. -/
def attempt (s : ConnectionsWriter) (row : NodeConnection) (appended : Bool) (o : Outcome) : ConnectionsWriter :=
  let s := s.append row (!appended && o.appends)
  if (appended || o.appends) && o.puts then
    { s.land row with current := if row.kind = .direct ∧ row.state = .connected then some .settling else none }
  else { s with current := some (.backoff row (appended || o.appends)) }

/-- The owed deletes one after another, up to the first that storage refuses. -/
def settleRows (s : ConnectionsWriter) : List NodeConnection → List Outcome → ConnectionsWriter
  | row :: rows, o :: outcomes =>
    if o.appends && o.puts then ((s.append row true).land row).settleRows rows outcomes else s.append row o.appends
  | _, _ => s

def settleOwed (s : ConnectionsWriter) (now : UInt64) (mint : NodeConnection → String) (outcomes : List Outcome) :
    ConnectionsWriter :=
  { s with lastStamp := s.stamp now }.settleRows (owedDirectRestored s.held (s.stamp now) mint) outcomes

/-- One hold of the write gate, or what happens beside it. -/
def step (s : ConnectionsWriter) : WriterMove → ConnectionsWriter
  | .owes f => { s with queue := s.queue ++ [f] }
  | .takes now o =>
    match s.current, s.queue with
    | none, f :: queue =>
      match f.build s.held s.own with
      | none => { s with queue := queue }
      | some row =>
        { s with queue := queue, lastStamp := s.stamp now }.attempt { row with loggedAtMs := s.stamp now } false o
    | _, _ => s
  | .retries o =>
    match s.current with
    | some (.backoff row appended) => s.attempt row appended o
    | _ => s
  | .settlesAfter now mint outcomes =>
    match s.current with
    | some .settling => { s.settleOwed now mint outcomes with current := none }
    | _ => s
  | .settles now mint outcomes => s.settleOwed now mint outcomes
  | .renames path name => { s with own := { s.own with path := path, name := name } }
  | .views view => { s with held := s.held.setTopologyView view }

/-- A writer of a birth: it holds no connection, and the store has what it had. -/
def new (own : ConnectionEnd) (stored : ConnectionIndex → Option NodeConnection) : ConnectionsWriter :=
  ⟨own, stored, [], (ConnectionsHeld.new.setOwnSource own.nodeId).markComplete, 0, [], none, [], []⟩

/-- A stamp at which no entry's order saturates. -/
def clockOk (s : ConnectionsWriter) (now : UInt64) : Bool :=
  decide (now.toNat < 2 ^ 63) && decide (s.lastStamp.toNat + 1 < 2 ^ 63)

/-- A row of a shape that is taken; a Refused one is of another source. -/
def rowOk (s : ConnectionsWriter) (row : NodeConnection) : Bool :=
  row.shapeRefusal.isNone && decide (row.state = .refused → row.source.nodeId ≠ s.own.nodeId)

/-- No settlement runs in the backoff of a row whose pair owes a delete; and the rows and the stamps are in order. -/
def inOrder (s : ConnectionsWriter) : WriterMove → Bool
  | .takes now _ =>
    match s.current, s.queue with
    | none, f :: _ => s.clockOk now && (f.build s.held s.own).all s.rowOk
    | _, _ => true
  | .settlesAfter now _ _ => s.clockOk now
  | .settles now mint _ =>
    s.clockOk now &&
      match s.current with
      | some (.backoff row _) => (owedDirectRestored s.held (s.stamp now) mint).all fun d => d.index != row.index
      | _ => true
  | _ => true

/-- What a source holds of its own key whose latest entry is the row. -/
def ownShown (own : String) (r : NodeConnection) : Option NodeConnection :=
  if r.source.nodeId ≠ own then none
  else
    match r.kind with
    | .direct => some r
    | .proxy => if r.state = .connected then some r else none

/-- A row as the writer lands it. -/
structure RowOk (own : String) (last : UInt64) (r : NodeConnection) : Prop where
  shape : r.shapeRefusal = none
  stamped : r.loggedAtMs.toNat ≤ last.toNat
  refused : r.state = .refused → r.source.nodeId ≠ own

/-- The latest row of a key: in the store, and in the held projection. -/
structure Latest (own : String) (rows : List NodeConnection) (resident : Option NodeConnection) (slot : Slot)
    (i : ConnectionIndex) (r : NodeConnection) : Prop where
  landed : r ∈ rows
  index : r.index = i
  stored : resident = some r
  newest : ∀ r' ∈ rows, r'.index = i → r' = r ∨ r'.loggedAtMs.toNat < r.loggedAtMs.toNat
  cell : slot.cell.map Cell.stamp = some r.stamp
  shown : slot.own = ownShown own r

/-- The store has the latest row that landed of each key, and the held projection took every one. -/
structure Agrees (own : String) (stored : ConnectionIndex → Option NodeConnection) (s : ConnectionsWriter) : Prop where
  source : s.own.nodeId = own
  ownSource : s.held.ownSource = some own
  bound : s.lastStamp.toNat < 2 ^ 63
  rows : ∀ r ∈ s.landed, RowOk own s.lastStamp r
  unapplied : s.unapplied = []
  resident : ∀ i, ((∀ r ∈ s.landed, r.index ≠ i) ∧ s.store i = stored i ∧ s.held.slot i = ⟨none, none⟩) ∨
    ∃ r, Latest own s.landed (s.store i) (s.held.slot i) i r

/-- A row that is newer than every one of its key that landed. -/
def Newest (s : ConnectionsWriter) (row : NodeConnection) : Prop :=
  ∀ r ∈ s.landed, r.index = row.index → r.loggedAtMs.toNat < row.loggedAtMs.toNat

variable {own : String} {stored : ConnectionIndex → Option NodeConnection} {s : ConnectionsWriter} {row : NodeConnection}

/-- Below `2 ^ 63` a later row has a greater stamp. -/
theorem stamp_toNat (h : row.loggedAtMs.toNat < 2 ^ 63) :
    row.stamp.toNat = 2 * row.loggedAtMs.toNat + if row.state = .connected then 0 else 1 := by
  unfold NodeConnection.stamp
  have hmin : min (2 * row.loggedAtMs.toNat) (2 ^ 64 - 1) = 2 * row.loggedAtMs.toNat := by omega
  rw [hmin]
  split
  next =>
    simp
    omega
  next =>
    simp [UInt64.toNat_add]
    omega

theorem stamp_lt {r : NodeConnection} (hrow : row.loggedAtMs.toNat < 2 ^ 63)
    (hlt : r.loggedAtMs.toNat < row.loggedAtMs.toNat) : r.stamp < row.stamp := by
  rw [UInt64.lt_iff_toNat_lt, stamp_toNat hrow, stamp_toNat (by omega)]
  split <;> split <;> omega

theorem Agrees.taken (h : Agrees own stored s) (hrow : RowOk own s.lastStamp row) (hnew : Newest s row) :
    s.held.cells[row.index]?.any (fun held => decide (row.stamp ≤ held.stamp)) = false := by
  have hbound : row.loggedAtMs.toNat < 2 ^ 63 := Nat.lt_of_le_of_lt hrow.stamped h.bound
  rcases h.resident row.index with ⟨-, -, hslot⟩ | ⟨r, hr⟩
  · have hcell : s.held.cells[row.index]? = none := congrArg Slot.cell hslot
    rw [hcell]
    rfl
  · have hlt := stamp_lt hbound (hnew r hr.landed hr.index)
    have hcell : s.held.cells[row.index]?.map Cell.stamp = some r.stamp := hr.cell
    obtain ⟨c, hc, hstamp⟩ := Option.map_eq_some_iff.mp hcell
    rw [hc, Option.any_some, decide_eq_false_iff_not, hstamp, UInt64.not_le]
    exact hlt

theorem takesRow_of_new (hshape : row.shapeRefusal = none)
    (hnew : s.held.cells[row.index]?.any (fun held => decide (row.stamp ≤ held.stamp)) = false) :
    takesRow s.held row = true := by
  have hnone : s.held.cells[row.index]?.filter (fun held => decide (row.stamp ≤ held.stamp)) = none := by
    rw [Option.filter_eq_none_iff]
    rw [Option.any_eq_false] at hnew
    intro held hheld
    simpa using hnew held hheld
  unfold takesRow ConnectionsHeld.apply
  rw [hshape]
  dsimp only
  rw [hnone]

theorem ownAfter_own {held : Option NodeConnection} (hsource : row.source.nodeId = own) (hne : row.state ≠ .refused) :
    ownAfter (some own) held row = ownShown own row := by
  unfold ownAfter ownShown
  have hown : ¬ (some own ≠ some row.source.nodeId) := fun hc => hc (by rw [hsource])
  have hshown : ¬ row.source.nodeId ≠ own := fun hc => hc hsource
  cases row.kind with
  | direct => simp only [if_neg hown, if_neg hshown, if_neg hne]
  | proxy => simp only [if_neg hown, if_neg hshown]

/-- A row lands that is newer than every one of its key: it is taken, and is its key's latest. -/
theorem Agrees.land (h : Agrees own stored s) (hrow : RowOk own s.lastStamp row) (hnew : Newest s row) :
    Agrees own stored (s.land row) := by
  have htaken := h.taken hrow hnew
  have hslot : ∀ i, ((s.land row).held).slot i =
      if row.index = i then (s.held.slot i).offer (some own) row else s.held.slot i := by
    intro i
    have happlied := ConnectionsHeld.slot_applied (h := s.held) (i := i) hrow.shape
    rw [h.ownSource] at happlied
    exact happlied
  refine ⟨h.source, (ConnectionsHeld.applied_kept _ _).1.trans h.ownSource, h.bound, ?_, ?_, fun i => ?_⟩
  · intro r hr
    rcases List.mem_append.mp hr with hr | hr
    · exact h.rows r hr
    · rw [List.mem_singleton.mp hr]
      exact hrow
  · change (if takesRow s.held row then s.unapplied else _) = []
    rw [if_pos (takesRow_of_new hrow.shape htaken)]
    exact h.unapplied
  · by_cases hi : row.index = i
    · right
      subst hi
      have hcell : ¬ (s.held.slot row.index).cell.any (fun held => decide (row.stamp ≤ held.stamp)) = true := by
        rw [show (s.held.slot row.index).cell = s.held.cells[row.index]? from rfl, htaken]
        exact Bool.false_ne_true
      have hat : ((s.land row).held).slot row.index =
          ⟨some (ConnectionsHeld.cellAfter (s.held.slot row.index).cell row),
            ownAfter (some own) (s.held.slot row.index).own row⟩ := by
        rw [hslot, if_pos rfl, Slot.offer, if_neg hcell]
      refine ⟨row, List.mem_append_right _ (List.mem_singleton_self _), rfl, Function.update_self _ _ _, ?_, ?_, ?_⟩
      · intro r' hr' hindex
        rcases List.mem_append.mp hr' with hr' | hr'
        · exact .inr (hnew r' hr' hindex)
        · exact .inl (List.mem_singleton.mp hr')
      · rw [hat]
        unfold ConnectionsHeld.cellAfter
        split <;> rfl
      · rw [hat]
        by_cases hsource : row.source.nodeId = own
        · exact ownAfter_own hsource fun hr => hrow.refused hr hsource
        · unfold ownAfter ownShown
          rw [if_pos (fun heq => hsource (Option.some.inj heq).symm), if_pos hsource]
          unfold ConnectionsHeld.slot
          rw [h.ownSource]
          exact if_neg fun heq => hsource (Option.some.inj heq).symm
    · have hstore : (s.land row).store i = s.store i := Function.update_of_ne (Ne.symm hi) _ _
      have hslot' : ((s.land row).held).slot i = s.held.slot i := by rw [hslot, if_neg hi]
      rcases h.resident i with ⟨hno, hstored, hnone⟩ | ⟨r, hr⟩
      · refine .inl ⟨fun r hr => ?_, hstore.trans hstored, hslot'.trans hnone⟩
        rcases List.mem_append.mp hr with hr | hr
        · exact hno r hr
        · rw [List.mem_singleton.mp hr]
          exact hi
      · refine .inr ⟨r, List.mem_append_left _ hr.landed, hr.index, hstore.trans hr.stored, ?_, ?_, ?_⟩
        · intro r' hr' hindex
          rcases List.mem_append.mp hr' with hr' | hr'
          · exact hr.newest r' hr' hindex
          · rw [List.mem_singleton.mp hr'] at hindex
            exact absurd hindex hi
        · rw [hslot']
          exact hr.cell
        · rw [hslot']
          exact hr.shown

theorem Agrees.append (h : Agrees own stored s) (row : NodeConnection) (appends : Bool) :
    Agrees own stored (s.append row appends) := by
  unfold ConnectionsWriter.append
  split
  next => exact ⟨h.source, h.ownSource, h.bound, h.rows, h.unapplied, h.resident⟩
  next => exact h

/-- A later stamp: every row that landed is older. -/
theorem stamp_spec (s : ConnectionsWriter) {now : UInt64} (hclock : s.clockOk now = true) :
    s.lastStamp.toNat < (s.stamp now).toNat ∧ (s.stamp now).toNat < 2 ^ 63 := by
  simp only [clockOk, Bool.and_eq_true, decide_eq_true_eq] at hclock
  have hsucc : (s.lastStamp + 1).toNat = s.lastStamp.toNat + 1 := by
    rw [UInt64.toNat_add]
    simp
    omega
  unfold ConnectionsWriter.stamp
  rw [laterStamp_toNat, hsucc]
  omega

theorem Agrees.stamped (h : Agrees own stored s) {now : UInt64} (hclock : s.clockOk now = true) (queue : List Fact) :
    Agrees own stored { s with queue := queue, lastStamp := s.stamp now } := by
  obtain ⟨hlt, hbound⟩ := stamp_spec s hclock
  refine ⟨h.source, h.ownSource, hbound, fun r hr => ?_, h.unapplied, h.resident⟩
  have hrow := h.rows r hr
  exact ⟨hrow.shape, Nat.le_trans hrow.stamped (Nat.le_of_lt hlt), hrow.refused⟩

/-- The own Proxies held are the latest rows of their keys. -/
theorem Agrees.proxy (h : Agrees own stored s) {t : String × List UInt8} {p : NodeConnection}
    (hp : s.held.ownProxies[t]? = some p) :
    p.toward = t ∧ p.kind = .proxy ∧ p.source.nodeId = own ∧ p ∈ s.landed := by
  have hslot : (s.held.slot ⟨own, t.1, t.2, .proxy⟩).own = some p := by
    unfold ConnectionsHeld.slot
    rw [if_pos h.ownSource]
    exact hp
  rcases h.resident ⟨own, t.1, t.2, .proxy⟩ with ⟨-, -, hnone⟩ | ⟨r, hr⟩
  · rw [hnone] at hslot
    cases hslot
  · have hsource : r.source.nodeId = own := congrArg ConnectionIndex.source hr.index
    have hkind : r.kind = .proxy := congrArg ConnectionIndex.kind hr.index
    have hshown := hr.shown
    rw [hslot, ownShown, if_neg (fun hc => hc hsource), hkind] at hshown
    dsimp only at hshown
    split at hshown
    next =>
      cases hshown
      exact ⟨Prod.ext (congrArg ConnectionIndex.destination hr.index) (congrArg ConnectionIndex.alpn hr.index), hkind, hsource,
        hr.landed⟩
    next => cases hshown

theorem Agrees.keyed (h : Agrees own stored s) : Keyed NodeConnection.toward s.held.ownProxies := by
  intro t p hp
  exact (h.proxy hp).1

/-- A Proxy's delete has a shape that is taken. -/
theorem shape_disconnected {p : NodeConnection} (hshape : p.shapeRefusal = none) (hkind : p.kind = .proxy) (id : String)
    (reason : Option String) (loggedAtMs : UInt64) :
    NodeConnection.shapeRefusal { p with id := id, state := .disconnected, reason := reason, loggedAtMs := loggedAtMs } = none := by
  obtain ⟨-, c, hc⟩ := proxy_not_refused hshape hkind
  unfold NodeConnection.shapeRefusal at hshape ⊢
  dsimp only at hshape ⊢
  split at hshape
  next => cases hshape
  next halpn => rw [if_neg halpn, hkind, hc]; rfl

/-- What a settlement writes: deletes of distinct keys, each newer than every row of its key. -/
structure Deletes (own : String) (s : ConnectionsWriter) (rows : List NodeConnection) : Prop where
  newest : ∀ d ∈ rows, RowOk own s.lastStamp d ∧ Newest s d
  nodup : (rows.map NodeConnection.index).Nodup

theorem Agrees.owed (h : Agrees own stored s) {now : UInt64} (hclock : s.clockOk now = true) (mint : NodeConnection → String) :
    Deletes own { s with lastStamp := s.stamp now } (owedDirectRestored s.held (s.stamp now) mint) := by
  obtain ⟨hlt, -⟩ := stamp_spec s hclock
  have hmem : ∀ p ∈ s.held.ownActiveProxies, p.kind = .proxy ∧ p ∈ s.landed := by
    intro p hp
    unfold ConnectionsHeld.ownActiveProxies at hp
    rw [List.mem_mergeSort] at hp
    have hvalue := (h.keyed.mem_values p).mp hp
    obtain ⟨-, hkind, -, hlanded⟩ := h.proxy hvalue
    exact ⟨hkind, hlanded⟩
  constructor
  · intro d hd
    obtain ⟨p, hp, rfl⟩ := List.mem_map.mp hd
    obtain ⟨hkind, hlanded⟩ := hmem p (List.mem_of_mem_filter hp)
    have hrow := h.rows p hlanded
    have hnext : (UInt64.ofNat (min (p.loggedAtMs.toNat + 1) (2 ^ 64 - 1))).toNat ≤ (s.stamp now).toNat := by
      have hp63 := Nat.lt_of_le_of_lt hrow.stamped h.bound
      have hmin : min (p.loggedAtMs.toNat + 1) (2 ^ 64 - 1) = p.loggedAtMs.toNat + 1 := by omega
      have hle := hrow.stamped
      rw [hmin, UInt64.toNat_ofNat']
      omega
    have hstamp : laterStamp (s.stamp now) (UInt64.ofNat (min (p.loggedAtMs.toNat + 1) (2 ^ 64 - 1))) = s.stamp now := by
      rw [← UInt64.toNat_inj, laterStamp_toNat]
      omega
    rw [hstamp]
    refine ⟨⟨shape_disconnected hrow.shape hkind _ _ _, Nat.le_refl _, fun hc => by cases hc⟩, fun r hr _ => ?_⟩
    exact Nat.lt_of_le_of_lt (h.rows r hr).stamped hlt
  · have hvalues : (s.held.ownActiveProxies.map NodeConnection.toward).Nodup := by
      unfold ConnectionsHeld.ownActiveProxies
      have hperm := (List.mergeSort_perm (s.held.ownProxies.toList.map Prod.snd) (fun a b =>
        ((LexCode.pairCode (LexCode.pairCode LexCode.stringCode LexCode.stringCode) alpnCode).cmp
          ((a.destination.path, a.destination.name), a.alpn) ((b.destination.path, b.destination.name), b.alpn)).isLE)).map
        NodeConnection.toward
      exact (List.Perm.nodup_iff hperm).mpr h.keyed.nodup_values
    have hindex : (s.held.ownActiveProxies.map NodeConnection.index).Nodup := by
      refine List.Nodup.of_map (fun i => (i.destination, i.alpn)) ?_
      rw [List.map_map]
      exact hvalues
    unfold owedDirectRestored
    rw [List.map_map]
    exact (hindex.sublist (List.filter_sublist.map NodeConnection.index))

/-- What a landing leaves of the rows to land after it. -/
theorem Deletes.rest {d : NodeConnection} {rows : List NodeConnection} (h : Deletes own s (d :: rows)) :
    Deletes own ((s.append d true).land d) rows := by
  have hnodup := List.nodup_cons.mp h.nodup
  refine ⟨fun e he => ?_, hnodup.2⟩
  obtain ⟨hrow, hnewest⟩ := h.newest e (List.mem_cons_of_mem _ he)
  refine ⟨hrow, fun r hr hindex => ?_⟩
  rcases List.mem_append.mp hr with hr | hr
  · exact hnewest r hr hindex
  · rw [List.mem_singleton.mp hr] at hindex
    refine absurd ?_ hnodup.1
    rw [hindex]
    exact List.mem_map_of_mem he

theorem settleRows_agrees (h : Agrees own stored s) {rows : List NodeConnection} (hrows : Deletes own s rows)
    (outcomes : List Outcome) : Agrees own stored (s.settleRows rows outcomes) := by
  induction rows generalizing s outcomes with
  | nil => exact h
  | cons d rows ih =>
    cases outcomes with
    | nil => exact h
    | cons o outcomes =>
      rw [settleRows]
      split
      next =>
        obtain ⟨hrow, hnewest⟩ := hrows.newest d (List.mem_cons_self ..)
        exact ih ((h.append d true).land hrow hnewest) hrows.rest outcomes
      next => exact h.append d o.appends

/-- A settlement leaves a row newest that is of no key it deletes. -/
theorem settleRows_newest {rows : List NodeConnection} (hrow : Newest s row) (hother : ∀ d ∈ rows, d.index ≠ row.index)
    (outcomes : List Outcome) : Newest (s.settleRows rows outcomes) row := by
  induction rows generalizing s outcomes with
  | nil => exact hrow
  | cons d rows ih =>
    cases outcomes with
    | nil => exact hrow
    | cons o outcomes =>
      rw [settleRows]
      split
      next =>
        refine ih (fun r hr hindex => ?_) (fun e he => hother e (List.mem_cons_of_mem _ he)) outcomes
        rcases List.mem_append.mp hr with hr | hr
        · exact hrow r hr hindex
        · rw [List.mem_singleton.mp hr] at hindex
          exact absurd hindex (hother d (List.mem_cons_self ..))
      next =>
        unfold ConnectionsWriter.append
        split
        next => exact hrow
        next => exact hrow

/-- A settlement leaves what the consumer has in hand, its queue and its last stamp. -/
theorem settleRows_current (rows : List NodeConnection) (outcomes : List Outcome) :
    (s.settleRows rows outcomes).current = s.current ∧ (s.settleRows rows outcomes).lastStamp = s.lastStamp := by
  induction rows generalizing s outcomes with
  | nil => exact ⟨rfl, rfl⟩
  | cons d rows ih =>
    cases outcomes with
    | nil => exact ⟨rfl, rfl⟩
    | cons o outcomes =>
      rw [settleRows]
      split
      next => exact ih outcomes
      next =>
        unfold ConnectionsWriter.append
        split
        next => exact ⟨rfl, rfl⟩
        next => exact ⟨rfl, rfl⟩

/-- The row in backoff is newer than every one of its key that landed. -/
def Pending (own : String) (s : ConnectionsWriter) : Prop :=
  ∀ row appended, s.current = some (.backoff row appended) → RowOk own s.lastStamp row ∧ Newest s row

theorem attempt_agrees (h : Agrees own stored s) (hrow : RowOk own s.lastStamp row) (hnewest : Newest s row) (appended : Bool)
    (o : Outcome) : Agrees own stored (s.attempt row appended o) ∧ Pending own (s.attempt row appended o) := by
  have happend := h.append row (!appended && o.appends)
  have hstamp : (s.append row (!appended && o.appends)).lastStamp = s.lastStamp := by
    unfold ConnectionsWriter.append
    split <;> rfl
  have hlanded : (s.append row (!appended && o.appends)).landed = s.landed := by
    unfold ConnectionsWriter.append
    split <;> rfl
  unfold ConnectionsWriter.attempt
  dsimp only
  generalize s.append row (!appended && o.appends) = s' at happend hstamp hlanded
  have hrow' : RowOk own s'.lastStamp row := hstamp ▸ hrow
  have hnewest' : Newest s' row := by
    unfold Newest
    rw [hlanded]
    exact hnewest
  split
  next =>
    have hland := happend.land hrow' hnewest'
    refine ⟨⟨hland.source, hland.ownSource, hland.bound, hland.rows, hland.unapplied, hland.resident⟩, ?_⟩
    intro r _ hcurrent
    dsimp only at hcurrent
    split at hcurrent <;> cases hcurrent
  next =>
    refine ⟨⟨happend.source, happend.ownSource, happend.bound, happend.rows, happend.unapplied, happend.resident⟩, ?_⟩
    intro r _ hcurrent
    cases hcurrent
    exact ⟨hrow', hnewest'⟩

theorem settleOwed_agrees (h : Agrees own stored s) {now : UInt64} (hclock : s.clockOk now = true)
    (mint : NodeConnection → String) (outcomes : List Outcome) : Agrees own stored (s.settleOwed now mint outcomes) :=
  settleRows_agrees (h.stamped hclock s.queue) (h.owed hclock mint) outcomes

/-- The row in backoff stays newest through a settlement that deletes nothing of its key. -/
theorem settleOwed_pending (hpending : Pending own s) {now : UInt64} (hclock : s.clockOk now = true)
    (mint : NodeConnection → String) (outcomes : List Outcome)
    (hother : ∀ row appended, s.current = some (.backoff row appended) →
      ∀ d ∈ owedDirectRestored s.held (s.stamp now) mint, d.index ≠ row.index) :
    Pending own (s.settleOwed now mint outcomes) := by
  intro row appended hcurrent
  obtain ⟨hsame, hstamp⟩ := @settleRows_current { s with lastStamp := s.stamp now }
    (owedDirectRestored s.held (s.stamp now) mint) outcomes
  unfold settleOwed at hcurrent ⊢
  rw [hsame] at hcurrent
  rw [hstamp]
  obtain ⟨hrow, hnewest⟩ := hpending row appended hcurrent
  have hlt := (stamp_spec s hclock).1
  refine ⟨⟨hrow.shape, Nat.le_trans hrow.stamped (Nat.le_of_lt hlt), hrow.refused⟩, ?_⟩
  have hstamped : Newest { s with lastStamp := s.stamp now } row := hnewest
  exact settleRows_newest hstamped (hother row appended hcurrent) outcomes

theorem agrees_takes (h : Agrees own stored s) (hpending : Pending own s) (now : UInt64) (o : Outcome)
    (horder : s.inOrder (.takes now o) = true) :
    Agrees own stored (s.step (.takes now o)) ∧ Pending own (s.step (.takes now o)) := by
  simp only [ConnectionsWriter.step]
  simp only [inOrder] at horder
  split
  next f queue hcurrent hqueue =>
    rw [hcurrent, hqueue] at horder
    simp only [Bool.and_eq_true] at horder
    obtain ⟨hclock, hrows⟩ := horder
    split
    next hnone =>
      refine ⟨⟨h.source, h.ownSource, h.bound, h.rows, h.unapplied, h.resident⟩, fun row appended hbackoff => ?_⟩
      exact hpending row appended hbackoff
    next row hrow =>
      rw [hrow, Option.all_some, rowOk, Bool.and_eq_true, Option.isNone_iff_eq_none, decide_eq_true_eq, h.source] at hrows
      have hlt := (stamp_spec s hclock).1
      have hrow' : RowOk own (s.stamp now) { row with loggedAtMs := s.stamp now } := ⟨hrows.1, Nat.le_refl _, hrows.2⟩
      refine attempt_agrees (h.stamped hclock queue) hrow' (fun r hr _ => ?_) false o
      exact Nat.lt_of_le_of_lt (h.rows r hr).stamped hlt
  next => exact ⟨h, hpending⟩

theorem agrees_step (h : Agrees own stored s) (hpending : Pending own s) (m : WriterMove) (horder : s.inOrder m = true) :
    Agrees own stored (s.step m) ∧ Pending own (s.step m) := by
  cases m with
  | owes f => exact ⟨⟨h.source, h.ownSource, h.bound, h.rows, h.unapplied, h.resident⟩, hpending⟩
  | takes now o => exact agrees_takes h hpending now o horder
  | retries o =>
    simp only [ConnectionsWriter.step]
    split
    next row appended hcurrent =>
      obtain ⟨hrow, hnewest⟩ := hpending row appended hcurrent
      exact attempt_agrees h hrow hnewest appended o
    next => exact ⟨h, hpending⟩
  | settlesAfter now mint outcomes =>
    simp only [ConnectionsWriter.step]
    split
    next hcurrent =>
      have hsettled := settleOwed_agrees h horder mint outcomes
      refine ⟨⟨hsettled.source, hsettled.ownSource, hsettled.bound, hsettled.rows, hsettled.unapplied, hsettled.resident⟩, ?_⟩
      intro row appended hbackoff
      cases hbackoff
    next => exact ⟨h, hpending⟩
  | settles now mint outcomes =>
    simp only [inOrder, Bool.and_eq_true] at horder
    refine ⟨settleOwed_agrees h horder.1 mint outcomes, settleOwed_pending hpending horder.1 mint outcomes ?_⟩
    intro row appended hcurrent d hd
    have hall := horder.2
    rw [hcurrent] at hall
    simpa using List.all_eq_true.mp hall d hd
  | renames path name => exact ⟨⟨h.source, h.ownSource, h.bound, h.rows, h.unapplied, h.resident⟩, hpending⟩
  | views view => exact ⟨⟨h.source, h.ownSource, h.bound, h.rows, h.unapplied, h.resident⟩, hpending⟩

theorem agrees_new (own : ConnectionEnd) (stored : ConnectionIndex → Option NodeConnection) :
    Agrees own.nodeId stored (ConnectionsWriter.new own stored) := by
  refine ⟨rfl, rfl, ?_, fun _ hr => (nomatch hr), rfl, fun i => .inl ⟨fun _ hr => (nomatch hr), rfl, ?_⟩⟩
  · change (0 : UInt64).toNat < 2 ^ 63
    decide
  · exact ConnectionsHeld.slot_holder (some own.nodeId) i

end ConnectionsWriter

/-- Whether a source's held projection reads one of its own pairs as Connected. -/
def ConnectionsHeld.readsConnected (h : ConnectionsHeld) (i : ConnectionIndex) : Bool :=
  match i.kind with
  | .direct => h.ownDirects[(i.destination, i.alpn)]?.any fun e => decide (e.state = .connected)
  | .proxy => h.ownProxies[(i.destination, i.alpn)]?.isSome

open ConnectionsWriter

theorem readsConnected_latest {own : String} {stored : ConnectionIndex → Option NodeConnection} {s : ConnectionsWriter}
    (h : Agrees own stored s) {i : ConnectionIndex} (hown : i.source = own) {r : NodeConnection}
    (hr : Latest own s.landed (s.store i) (s.held.slot i) i r) :
    s.held.readsConnected i = decide (r.state = .connected) := by
  have hsource : r.source.nodeId = own := (congrArg ConnectionIndex.source hr.index).trans hown
  have hshown := hr.shown
  unfold ownShown at hshown
  rw [if_neg (fun hc => hc hsource)] at hshown
  unfold ConnectionsHeld.slot at hshown
  rw [h.ownSource, hown] at hshown
  dsimp only at hshown
  rw [if_pos rfl, show r.kind = i.kind from congrArg ConnectionIndex.kind hr.index] at hshown
  unfold ConnectionsHeld.readsConnected
  cases hkind : i.kind with
  | direct =>
    rw [hkind] at hshown
    dsimp only at hshown ⊢
    rw [hshown, Option.any_some]
  | proxy =>
    rw [hkind] at hshown
    dsimp only at hshown ⊢
    rw [hshown]
    split
    next hc => rw [decide_eq_true hc]; rfl
    next hc => rw [decide_eq_false hc]; rfl

theorem readsConnected_none {h : ConnectionsHeld} {own : String} {i : ConnectionIndex} (hsource : h.ownSource = some own)
    (hown : i.source = own) (hslot : h.slot i = ⟨none, none⟩) : h.readsConnected i = false := by
  have hnone := congrArg Slot.own hslot
  unfold ConnectionsHeld.slot at hnone
  rw [hsource, hown] at hnone
  dsimp only at hnone
  rw [if_pos rfl] at hnone
  unfold ConnectionsHeld.readsConnected
  cases hkind : i.kind with
  | direct =>
    rw [hkind] at hnone
    dsimp only at hnone ⊢
    rw [hnone]
    rfl
  | proxy =>
    rw [hkind] at hnone
    dsimp only at hnone ⊢
    rw [hnone]
    rfl

/-- In a run where no settlement is made in the backoff of a row whose pair owes a delete, and whose rows and stamps are in
order, the store has for each key the row that landed with the greatest stamp, the held projection took every row, and an
own pair reads Connected in the store exactly when it is held so. -/
theorem store_agrees_with_held (own : ConnectionEnd) (stored : ConnectionIndex → Option NodeConnection)
    {moves : List WriterMove}
    (hrun : RunOk ConnectionsWriter.step (fun s m => s.inOrder m = true) (ConnectionsWriter.new own stored) moves) :
    let s := moves.foldl ConnectionsWriter.step (ConnectionsWriter.new own stored)
    (∀ i, ((∀ r ∈ s.landed, r.index ≠ i) ∧ s.store i = stored i) ∨
      ∃ r ∈ s.landed, r.index = i ∧ s.store i = some r ∧ ∀ r' ∈ s.landed, r'.index = i → r' = r ∨ r'.stamp < r.stamp) ∧
    s.unapplied = [] ∧
    (∀ i, i.source = own.nodeId → (stored i = none ∨ ∃ r ∈ s.landed, r.index = i) →
      (((s.store i).any fun r => decide (r.state = .connected)) = true ↔ s.held.readsConnected i = true)) := by
  intro s
  have hinv : Agrees own.nodeId stored s ∧ Pending own.nodeId s := by
    refine hrun.invariant (I := fun s => Agrees own.nodeId stored s ∧ Pending own.nodeId s) ?_
      ⟨agrees_new own stored, fun _ _ hcurrent => by cases hcurrent⟩
    exact fun s m hs hm => agrees_step hs.1 hs.2 m hm
  obtain ⟨h, -⟩ := hinv
  refine ⟨fun i => ?_, h.unapplied, fun i hown hlanded => ?_⟩
  · rcases h.resident i with ⟨hno, hstored, -⟩ | ⟨r, hr⟩
    · exact .inl ⟨hno, hstored⟩
    · refine .inr ⟨r, hr.landed, hr.index, hr.stored, fun r' hr' hindex => ?_⟩
      rcases hr.newest r' hr' hindex with heq | hlt
      · exact .inl heq
      · exact .inr (stamp_lt (Nat.lt_of_le_of_lt (h.rows r hr.landed).stamped h.bound) hlt)
  · rcases h.resident i with ⟨hno, hstored, hslot⟩ | ⟨r, hr⟩
    · rw [readsConnected_none h.ownSource hown hslot, hstored]
      rcases hlanded with hnone | ⟨r, hr, hindex⟩
      · rw [hnone]
        exact Iff.rfl
      · exact absurd hindex (hno r hr)
    · rw [readsConnected_latest h hown hr, hr.stored]
      exact Iff.rfl

/-- A Direct of node `n1` to node `n2`, or a Proxy to it through node `n3`. -/
def directRow (id : String) : NodeConnection := ⟨id, endOf "n1", endOf "n2", .direct, [1], .connected, none, none, 0⟩

def proxyRow (id : String) : NodeConnection :=
  ⟨id, endOf "n1", endOf "n2", .proxy, [1], .connected, some (endOf "n3"), none, 0⟩

def lands : Outcome := ⟨true, true⟩

/-- A Direct lands, then a Proxy beside it, and the write of a second Proxy row is refused; in its backoff the reconciler
settles the delete owed; then the second row lands. -/
def overtakenRows : List WriterMove :=
  [.owes (.row fun _ => some (directRow "d1")), .takes 10 lands, .settlesAfter 11 (fun _ => "x") [],
    .owes (.row fun _ => some (proxyRow "p1")), .takes 12 lands, .owes (.row fun _ => some (proxyRow "p2")),
    .takes 13 ⟨true, false⟩, .settles 14 (fun _ => "x1") [lands], .retries lands]

/-- With nothing owed the store has the older row, which the held projection refused, and reads the pair Connected. -/
theorem older_row_lands_last :
    let s := overtakenRows.foldl ConnectionsWriter.step (ConnectionsWriter.new (endOf "n1") fun _ => none)
    s.queue.isEmpty = true ∧ s.current.isNone = true ∧
    (s.store (proxyRow "p2").index = some { proxyRow "p2" with loggedAtMs := 13 } ∧
      ∃ r ∈ s.landed, r.index = (proxyRow "p2").index ∧ ({ proxyRow "p2" with loggedAtMs := 13 } : NodeConnection).stamp < r.stamp) ∧
    s.unapplied = [{ proxyRow "p2" with loggedAtMs := 13 }] ∧
    ((s.store (proxyRow "p2").index).any fun r => decide (r.state = .connected)) = true ∧
    s.held.readsConnected (proxyRow "p2").index = false := by
  decide +kernel

/-- The same rows, the settlement made once the second one landed. -/
def orderedRows : List WriterMove :=
  [.owes (.row fun _ => some (directRow "d1")), .takes 10 lands, .settlesAfter 11 (fun _ => "x") [],
    .owes (.row fun _ => some (proxyRow "p1")), .takes 12 lands, .owes (.row fun _ => some (proxyRow "p2")),
    .takes 13 ⟨true, false⟩, .retries lands, .settles 14 (fun _ => "x1") [lands]]

theorem orderedRows_agree :
    (orderedRows.foldl ConnectionsWriter.step (ConnectionsWriter.new (endOf "n1") fun _ => none)).unapplied = [] ∧
    ((((orderedRows.foldl ConnectionsWriter.step (ConnectionsWriter.new (endOf "n1") fun _ => none)).store
      (proxyRow "p2").index).any fun r => decide (r.state = .connected)) = true ↔
        (orderedRows.foldl ConnectionsWriter.step
          (ConnectionsWriter.new (endOf "n1") fun _ => none)).held.readsConnected (proxyRow "p2").index = true) := by
  have hrun : RunOk ConnectionsWriter.step (fun s m => s.inOrder m = true)
      (ConnectionsWriter.new (endOf "n1") fun _ => none) orderedRows := by
    decide +kernel
  obtain ⟨-, hunapplied, hreads⟩ := store_agrees_with_held (endOf "n1") (fun _ => none) hrun
  exact ⟨hunapplied, hreads _ rfl (.inl rfl)⟩

end DistributedMesh.Connections
