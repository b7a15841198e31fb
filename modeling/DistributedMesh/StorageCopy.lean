import DistributedMesh.GuardedRuns
import DistributedMesh.StoreLog
import Mathlib.Data.List.Nodup

namespace DistributedMesh

namespace StorageCopy

variable {Value : Type}

/-- One of the stores of a provider. -/
inductive Store where
  | fabric
  | meshes
  | nodes
  | connections
  | builds
  | events
deriving DecidableEq

/-- The stores, in the order a copy takes them. -/
def Store.all : List Store := [.fabric, .meshes, .nodes, .connections, .builds, .events]

def Store.name : Store → String
  | .fabric => "fabric"
  | .meshes => "meshes"
  | .nodes => "nodes"
  | .connections => "connections"
  | .builds => "builds"
  | .events => "events"

/-- A provider's stores as their lines. -/
abbrev Stores (Value : Type) := Store → List (Line Value)

/-- The change a copy is a step of, and the registered names of its two providers. -/
structure CopyRun where
  changeId : String
  source : String
  destination : String

/-- What a copy did: the lines verified in source order, and those it appended. -/
structure Copied where
  sourcePosition : Nat
  copied : Nat
deriving DecidableEq

/-- Why a copy did not finish. -/
inductive CopyError where
  | refused (why : String)
  | storage (e : StorageError)
  | failed (why : String)
deriving DecidableEq

def CopyError.isRefused : CopyError → Bool
  | .refused _ => true
  | _ => false

end StorageCopy

/-- Whether the provider gave its answer. -/
def StorageError.answered : StorageError → Bool
  | .io .. => false
  | .unrecognised .. => true
  | .refused .. => true

def StorageError.display : StorageError → String
  | .io file reason => s!"{file}: {reason}"
  | .unrecognised file reason => s!"{file} is not a record this build recognises: {reason}"
  | .refused file reason => s!"{file} is refused: {reason}"

namespace StorageCopy

variable {Value : Type}

/-- Whether two lines are one write: the same object, byte for byte. -/
def sameLine (a b : Line Value) : Bool := a.object == b.object

/-- The first place where the destination's lines are not the source's. -/
def firstMismatch (source destination : List (Line Value)) : Option Nat :=
  ((destination.zip source).findIdx? fun p => !sameLine p.1 p.2).or
    (if source.length < destination.length then some source.length else none)

/-- Why the destination's lines of a store are not a prefix of the source's. -/
def mismatch (run : CopyRun) (store : Store) (source destination : List (Line Value)) : Option (Nat × String) := do
  let place ← firstMismatch source destination
  let d ← destination[place]?
  let name := store.name
  let subject := d.subject.quote
  let id := d.attributes.id
  let why :=
    match source[place]? with
    | none => s!"its {name} store holds line {place + 1} at subject {subject}, id {id}, which the old provider `{run.source}` does not hold (it holds {source.length} lines)"
    | some s =>
      if s.attributes.id = id then
        s!"its {name} store's line {place + 1} at subject {subject}, id {id}, differs from the old provider `{run.source}`'s line of that id"
      else
        let held := s.subject.quote
        s!"its {name} store's line {place + 1} is id {id} at subject {subject} where the old provider `{run.source}` holds id {s.attributes.id} at subject {held}"
  some (place, why)

def refused (run : CopyRun) (why : String) : CopyError :=
  .refused s!"the new topology storage provider `{run.destination}` is not a copy of the old one `{run.source}` in source order: {why}; nothing is appended and nothing switches"

/-- An error a provider gave the copy: answered, the copy fails naming it; else no answer. -/
def of (provider : String) (e : StorageError) : CopyError :=
  if e.answered then
    .failed s!"the topology storage provider `{provider}` answered the copy with an error: {e.display}; nothing switches"
  else .storage e

/-- How a provider's call went; an append that errs landed or not. -/
inductive Answer where
  | answers
  | errs (e : StorageError) (landed : Bool)
deriving DecidableEq

/-- A line that landed in the destination: its store, its place in the source, and the line. -/
structure Landed (Value : Type) where
  store : Store
  place : Nat
  line : Line Value

/-- The answers still to come, and what the copy did so far. -/
structure Progress (Value : Type) where
  answers : List Answer
  position : Nat
  copied : Nat
  landed : List (Landed Value)

/-- The next answer. A call nothing is said of answers. -/
def Progress.answer (p : Progress Value) : Answer := p.answers.head?.getD .answers

def Progress.next (p : Progress Value) : Progress Value := { p with answers := p.answers.tail }

structure Verified (Value : Type) where
  store : Store
  lines : List (Line Value)
  held : Nat

/-- Each store of both providers read, the destination's verified a prefix of the source's. -/
def verify (run : CopyRun) (source destination : Stores Value) :
    List Store → Progress Value → Except CopyError (List (Verified Value)) × Progress Value
  | [], p => (.ok [], p)
  | store :: rest, p =>
    match p.answer with
    | .errs e _ => (.error (of run.source e), p.next)
    | .answers =>
      match p.next.answer with
      | .errs e _ => (.error (of run.destination e), p.next.next)
      | .answers =>
        match mismatch run store (source store) (destination store) with
        | some (place, why) => (.error (refused run why), { p.next.next with position := p.position + place })
        | none =>
          let held := (destination store).length
          let (stores, p) := verify run source destination rest { p.next.next with position := p.position + held }
          (stores.map (⟨store, source store, held⟩ :: ·), p)

/-- Lines of a store appended one after another, the first at a place of the source. -/
def appendLines (run : CopyRun) (store : Store) : List (Line Value) → Nat → Progress Value → Option CopyError × Progress Value
  | [], _, p => (none, p)
  | line :: lines, place, p =>
    match p.answer with
    | .answers =>
      appendLines run store lines (place + 1)
        { p.next with position := p.position + 1, copied := p.copied + 1, landed := p.landed ++ [⟨store, place, line⟩] }
    | .errs e landed =>
      (some (of run.destination e), { p.next with landed := if landed then p.landed ++ [⟨store, place, line⟩] else p.landed })

def appendStores (run : CopyRun) : List (Verified Value) → Progress Value → Option CopyError × Progress Value
  | [], p => (none, p)
  | v :: rest, p =>
    match appendLines run v.store (v.lines.drop v.held) v.held p with
    | (none, p) => appendStores run rest p
    | (some e, p) => (some e, p)

def copyIn (run : CopyRun) (source destination : Stores Value) (answers : List Answer) : Option CopyError × Progress Value :=
  match verify run source destination Store.all ⟨answers, 0, 0, []⟩ with
  | (.error e, p) => (some e, p)
  | (.ok stores, p) => appendStores run stores p

/-- A copy's answer and the lines that landed in the destination. -/
def copy (run : CopyRun) (source destination : Stores Value) (answers : List Answer) :
    Except CopyError Copied × List (Landed Value) :=
  match copyIn run source destination answers with
  | (some e, p) => (.error e, p.landed)
  | (none, p) => (.ok ⟨p.position, p.copied⟩, p.landed)

/-- The destination with the lines that landed in it. -/
def land (destination : Stores Value) (landed : List (Landed Value)) : Stores Value := fun store =>
  destination store ++ (landed.filter fun l => l.store = store).map Landed.line

/-- The lines are, object for object, a prefix of the source's. -/
def Prefixed (destination source : List (Line Value)) : Prop := destination.map Line.object <+: source.map Line.object

instance (destination source : List (Line Value)) : Decidable (Prefixed destination source) :=
  inferInstanceAs (Decidable (_ <+: _))

/-- The stores a copy reads: as far as both providers answer, and no further than one it refuses. -/
def reads (source destination : Stores Value) : List Store → List Answer → List Store
  | [], _ => []
  | store :: rest, answers =>
    match answers.head?.getD .answers with
    | .errs .. => []
    | .answers =>
      match answers.tail.head?.getD .answers with
      | .errs .. => []
      | .answers =>
        if Prefixed (destination store) (source store) then store :: reads source destination rest answers.tail.tail
        else [store]

section Prefixes

theorem zip_same_iff (source destination : List (Line Value)) :
    ((destination.zip source).findIdx? fun p => !sameLine p.1 p.2) = none ∧ destination.length ≤ source.length ↔
      Prefixed destination source := by
  induction destination generalizing source with
  | nil => simp [Prefixed]
  | cons d destination ih =>
    cases source with
    | nil => simp [Prefixed]
    | cons s source =>
      have hrest := ih source
      simp only [Prefixed, List.zip_cons_cons, List.findIdx?_cons, List.length_cons, List.map_cons,
        Nat.add_le_add_iff_right, List.cons_prefix_cons] at hrest ⊢
      rw [← hrest, sameLine]
      by_cases hsame : d.object = s.object
      · simp [hsame]
      · simp [hsame]

theorem firstMismatch_none_iff (source destination : List (Line Value)) :
    firstMismatch source destination = none ↔ Prefixed destination source := by
  rw [← zip_same_iff, firstMismatch, Option.or_eq_none_iff]
  by_cases hlong : source.length < destination.length
  · simp [hlong]
  · simp [hlong, Nat.le_of_not_lt hlong]

theorem firstMismatch_lt {source destination : List (Line Value)} {place : Nat}
    (h : firstMismatch source destination = some place) : place < destination.length := by
  rw [firstMismatch, Option.or_eq_some_iff] at h
  rcases h with h | ⟨-, h⟩
  · have hlt := (List.findIdx?_eq_some_iff_getElem.mp h).1
    rw [List.length_zip] at hlt
    omega
  · split at h
    next hlong =>
      cases h
      exact hlong
    next => cases h

/-- A store is refused just when it is not a prefix of the source's. -/
theorem mismatch_none_iff (run : CopyRun) (store : Store) (source destination : List (Line Value)) :
    mismatch run store source destination = none ↔ Prefixed destination source := by
  rw [← firstMismatch_none_iff]
  cases hplace : firstMismatch source destination with
  | none =>
    rw [mismatch, hplace]
    exact ⟨fun _ => rfl, fun _ => rfl⟩
  | some place =>
    have hget := List.getElem?_eq_getElem (firstMismatch_lt hplace)
    simp [mismatch, hplace, hget]

end Prefixes

section Verifying

variable {run : CopyRun} {source destination : Stores Value}

/-- What is verified of a store. -/
def verifiedOf (source destination : Stores Value) (store : Store) : Verified Value :=
  ⟨store, source store, (destination store).length⟩

theorem of_isRefused (provider : String) (e : StorageError) : (of provider e).isRefused = false := by
  unfold of
  split
  next => rfl
  next => rfl

/-- A verification passes every store, refuses one it read, or ends where a provider errs. -/
theorem verify_cases (run : CopyRun) (source destination : Stores Value) (stores : List Store) (p : Progress Value) :
    (∃ p', verify run source destination stores p = (.ok (stores.map (verifiedOf source destination)), p') ∧
        p'.landed = p.landed ∧ reads source destination stores p.answers = stores ∧
        ∀ store ∈ stores, Prefixed (destination store) (source store)) ∨
      (∃ e p', verify run source destination stores p = (.error e, p') ∧ p'.landed = p.landed ∧ e.isRefused = true ∧
        ∃ store ∈ reads source destination stores p.answers, ¬ Prefixed (destination store) (source store)) ∨
      (∃ e p', verify run source destination stores p = (.error e, p') ∧ p'.landed = p.landed ∧ e.isRefused = false ∧
        reads source destination stores p.answers ≠ stores ∧
        ∀ store ∈ reads source destination stores p.answers, Prefixed (destination store) (source store)) := by
  induction stores generalizing p with
  | nil => exact .inl ⟨p, rfl, rfl, rfl, List.forall_mem_nil _⟩
  | cons store rest ih =>
    rw [verify, reads]
    simp only [Progress.answer, Progress.next]
    cases hfrom : p.answers.head?.getD .answers with
    | errs e landed =>
      exact .inr (.inr ⟨of run.source e, p.next, rfl, rfl, of_isRefused _ _, (List.cons_ne_nil _ _).symm, List.forall_mem_nil _⟩)
    | answers =>
      cases hto : p.answers.tail.head?.getD .answers with
      | errs e landed =>
        exact .inr (.inr ⟨of run.destination e, p.next.next, rfl, rfl, of_isRefused _ _, (List.cons_ne_nil _ _).symm,
          List.forall_mem_nil _⟩)
      | answers =>
        cases hmismatch : mismatch run store (source store) (destination store) with
        | some why =>
          have hnot : ¬ Prefixed (destination store) (source store) := by
            rw [← mismatch_none_iff run store, hmismatch]
            exact fun h => by cases h
          simp only [if_neg hnot]
          exact .inr (.inl ⟨_, _, rfl, rfl, rfl, store, List.mem_singleton_self _, hnot⟩)
        | none =>
          have hbegins := (mismatch_none_iff run store _ _).mp hmismatch
          simp only [if_pos hbegins]
          have hrest := ih { p.next.next with position := p.position + (destination store).length }
          obtain ⟨p', hv, hlanded, hreads, hall⟩ | ⟨e, p', hv, hlanded, he, s, hs, hnot⟩ |
            ⟨e, p', hv, hlanded, he, hreads, hall⟩ := hrest
          · refine .inl ⟨p', ?_, hlanded, ?_, ?_⟩
            · simp only [Progress.next] at hv
              rw [hv]
              rfl
            · simp only [Progress.next] at hreads
              rw [hreads]
            · exact List.forall_mem_cons.mpr ⟨hbegins, hall⟩
          · refine .inr (.inl ⟨e, p', ?_, hlanded, he, s, List.mem_cons_of_mem _ hs, hnot⟩)
            simp only [Progress.next] at hv
            rw [hv]
            rfl
          · refine .inr (.inr ⟨e, p', ?_, hlanded, he, ?_, List.forall_mem_cons.mpr ⟨hbegins, hall⟩⟩)
            · simp only [Progress.next] at hv
              rw [hv]
              rfl
            · intro heq
              exact hreads (List.cons.inj heq).2

end Verifying

section Appending

/-- The lines as they land one after another from a place on. -/
def landings (store : Store) : Nat → List (Line Value) → List (Landed Value)
  | _, [] => []
  | place, line :: lines => ⟨store, place, line⟩ :: landings store (place + 1) lines

/-- What the destination's stores are short of. -/
def missing (vs : List (Verified Value)) : List (Landed Value) :=
  vs.flatMap fun v => landings v.store v.held (v.lines.drop v.held)

theorem appendLines_spec (run : CopyRun) (store : Store) (lines : List (Line Value)) (place : Nat) (p : Progress Value) :
    ∃ l, (appendLines run store lines place p).2.landed = p.landed ++ l ∧ l <+: landings store place lines ∧
      match (appendLines run store lines place p).1 with
      | none => l = landings store place lines
      | some e => e.isRefused = false := by
  induction lines generalizing place p with
  | nil => exact ⟨[], (List.append_nil _).symm, List.prefix_rfl, rfl⟩
  | cons line lines ih =>
    rw [appendLines]
    cases hanswer : p.answer with
    | answers =>
      obtain ⟨l, hlanded, hbegins, hresult⟩ := ih (place + 1)
        { p.next with position := p.position + 1, copied := p.copied + 1, landed := p.landed ++ [⟨store, place, line⟩] }
      refine ⟨⟨store, place, line⟩ :: l, ?_, List.cons_prefix_cons.mpr ⟨rfl, hbegins⟩, ?_⟩
      · simp only [hlanded, List.append_assoc, List.singleton_append]
      · revert hresult
        simp only
        split
        next =>
          intro hl
          rw [hl]
          rfl
        next => exact id
    | errs e landed =>
      cases landed with
      | true => exact ⟨[⟨store, place, line⟩], rfl, List.cons_prefix_cons.mpr ⟨rfl, List.nil_prefix⟩, of_isRefused _ _⟩
      | false => exact ⟨[], (List.append_nil _).symm, List.nil_prefix, of_isRefused _ _⟩

/-- What landed is what was missing, as far as the copy came. -/
theorem appendStores_spec (run : CopyRun) (vs : List (Verified Value)) (p : Progress Value) :
    ∃ l, (appendStores run vs p).2.landed = p.landed ++ l ∧ l <+: missing vs ∧
      match (appendStores run vs p).1 with
      | none => l = missing vs
      | some e => e.isRefused = false := by
  induction vs generalizing p with
  | nil => exact ⟨[], (List.append_nil _).symm, List.prefix_rfl, rfl⟩
  | cons v vs ih =>
    rw [appendStores, missing, List.flatMap_cons]
    obtain ⟨l, hlanded, hbegins, hresult⟩ := appendLines_spec run v.store (v.lines.drop v.held) v.held p
    cases hlines : appendLines run v.store (v.lines.drop v.held) v.held p with
    | mk e p' =>
      rw [hlines] at hlanded hresult
      cases e with
      | some e => exact ⟨l, hlanded, hbegins.trans (List.prefix_append _ _), hresult⟩
      | none =>
        have hl : l = landings v.store v.held (v.lines.drop v.held) := hresult
        obtain ⟨l', hlanded', hbegins', hresult'⟩ := ih p'
        refine ⟨l ++ l', ?_, ?_, ?_⟩
        · rw [hlanded', hlanded, List.append_assoc]
        · rw [hl]
          exact (List.prefix_append_right_inj _).mpr hbegins'
        · revert hresult'
          simp only
          split
          next =>
            intro hl'
            rw [hl, hl']
            rfl
          next => exact id

end Appending

section Landing

variable {source destination : Stores Value} {l : List (Landed Value)}

/-- The place a line has in the source. -/
def Landed.key (x : Landed Value) : Store × Nat := (x.store, x.place)

theorem map_line_landings (store : Store) (place : Nat) (lines : List (Line Value)) :
    (landings store place lines).map Landed.line = lines := by
  induction lines generalizing place with
  | nil => rfl
  | cons line lines ih => rw [landings, List.map_cons, ih]

theorem map_key_landings (store : Store) (place : Nat) (lines : List (Line Value)) :
    (landings store place lines).map Landed.key = (List.range' place lines.length).map (store, ·) := by
  induction lines generalizing place with
  | nil => rfl
  | cons line lines ih =>
    rw [landings, List.map_cons, ih, List.length_cons, List.range'_succ, List.map_cons]
    rfl

theorem of_mem_landings {store : Store} {place : Nat} {lines : List (Line Value)} {x : Landed Value}
    (h : x ∈ landings store place lines) : x.store = store ∧ place ≤ x.place ∧ lines[x.place - place]? = some x.line := by
  induction lines generalizing place with
  | nil => cases h
  | cons line lines ih =>
    rcases List.mem_cons.mp h with rfl | h
    · simp
    · obtain ⟨hstore, hle, hget⟩ := ih h
      refine ⟨hstore, by omega, ?_⟩
      rw [show x.place - place = (x.place - (place + 1)) + 1 by omega, List.getElem?_cons_succ]
      exact hget

/-- As many lines as landed in a row have the places from the first on. -/
theorem place_lt_of_prefix {store : Store} {place : Nat} {lines : List (Line Value)} (h : l <+: landings store place lines)
    {x : Landed Value} (hx : x ∈ l) : x.place < place + l.length := by
  induction lines generalizing place l with
  | nil =>
    rw [List.prefix_nil.mp h] at hx
    cases hx
  | cons line lines ih =>
    cases l with
    | nil => cases hx
    | cons y l =>
      obtain ⟨rfl, hrest⟩ := List.cons_prefix_cons.mp h
      rw [List.length_cons]
      rcases List.mem_cons.mp hx with rfl | hx
      · simp only
        omega
      · have hlt := ih hrest hx
        omega

def missingOf (source destination : Stores Value) (stores : List Store) : List (Landed Value) :=
  missing (stores.map (verifiedOf source destination))

def missingIn (source destination : Stores Value) (store : Store) : List (Landed Value) :=
  landings store (destination store).length ((source store).drop (destination store).length)

theorem missingOf_cons (source destination : Stores Value) (store : Store) (stores : List Store) :
    missingOf source destination (store :: stores) = missingIn source destination store ++ missingOf source destination stores :=
  rfl

theorem of_mem_missingOf {stores : List Store} {x : Landed Value} (h : x ∈ missingOf source destination stores) :
    x.store ∈ stores ∧ x ∈ missingIn source destination x.store := by
  obtain ⟨v, hv, hx⟩ := List.mem_flatMap.mp h
  obtain ⟨store, hstore, rfl⟩ := List.mem_map.mp hv
  have heq : x.store = store := (of_mem_landings hx).1
  rw [heq]
  exact ⟨hstore, hx⟩

theorem filter_missingOf {stores : List Store} (hd : stores.Nodup) {store : Store} (h : store ∈ stores) :
    (missingOf source destination stores).filter (fun x => x.store = store) = missingIn source destination store := by
  have hown : (missingIn source destination store).filter (fun x => x.store = store) = missingIn source destination store :=
    List.filter_eq_self.mpr fun x hx => by simpa using (of_mem_landings hx).1
  induction stores with
  | nil => cases h
  | cons first stores ih =>
    rw [missingOf_cons, List.filter_append]
    obtain ⟨hfirst, hrest⟩ := List.nodup_cons.mp hd
    rcases List.mem_cons.mp h with rfl | h
    · have hnone : (missingOf source destination stores).filter (fun x => x.store = store) = [] := by
        refine List.filter_eq_nil_iff.mpr fun x hx heq => hfirst ?_
        exact (show x.store = store by simpa using heq) ▸ (of_mem_missingOf hx).1
      rw [hnone, List.append_nil, hown]
    · have hnone : (missingIn source destination first).filter (fun x => x.store = store) = [] := by
        refine List.filter_eq_nil_iff.mpr fun x hx heq => hfirst ?_
        have hstore : x.store = first := (of_mem_landings hx).1
        rw [← hstore, show x.store = store by simpa using heq]
        exact h
      rw [hnone, List.nil_append, ih hrest h]

theorem nodup_missingOf {stores : List Store} (hd : stores.Nodup) :
    ((missingOf source destination stores).map Landed.key).Nodup := by
  induction stores with
  | nil => exact List.nodup_nil
  | cons store stores ih =>
    obtain ⟨hstore, hrest⟩ := List.nodup_cons.mp hd
    rw [missingOf_cons, List.map_append, List.nodup_append]
    refine ⟨?_, ih hrest, fun a ha b hb heq => hstore ?_⟩
    · rw [missingIn, map_key_landings]
      exact (List.nodup_range').map fun _ _ h => congrArg Prod.snd h
    · obtain ⟨x, hx, rfl⟩ := List.mem_map.mp ha
      obtain ⟨y, hy, rfl⟩ := List.mem_map.mp hb
      have hxs : x.store = store := (of_mem_landings hx).1
      rw [← hxs, show x.store = y.store from congrArg Prod.fst heq]
      exact (of_mem_missingOf hy).1

theorem nodup_all : Store.all.Nodup := by decide

theorem mem_all (store : Store) : store ∈ Store.all := by
  cases store <;> decide

/-- Of what was missing, the part of a store lands there in order. -/
theorem filter_prefix_missingIn (h : l <+: missingOf source destination Store.all) (store : Store) :
    l.filter (fun x => x.store = store) <+: missingIn source destination store := by
  rw [← filter_missingOf nodup_all (mem_all store)]
  exact h.filter _

theorem prefixed_append {held lines more : List (Line Value)} (hheld : Prefixed held lines)
    (hmore : more <+: lines.drop held.length) : Prefixed (held ++ more) lines := by
  have htake : held.map Line.object = (lines.map Line.object).take held.length := by
    rw [← List.length_map (f := Line.object)]
    exact List.prefix_iff_eq_take.mp hheld
  unfold Prefixed
  rw [List.map_append, htake]
  have hdrop : more.map Line.object <+: (lines.map Line.object).drop held.length := by
    rw [← List.map_drop]
    exact hmore.map _
  have hall := (List.prefix_append_right_inj ((lines.map Line.object).take held.length)).mpr hdrop
  rwa [List.take_append_drop] at hall

theorem land_prefixed (h : l <+: missingOf source destination Store.all) {store : Store}
    (hbegins : Prefixed (destination store) (source store)) : Prefixed (land destination l store) (source store) := by
  refine prefixed_append hbegins ?_
  have hlines := (filter_prefix_missingIn h store).map Landed.line
  rwa [missingIn, map_line_landings] at hlines

theorem land_missing_objects {store : Store} (hbegins : Prefixed (destination store) (source store)) :
    (land destination (missingOf source destination Store.all) store).map Line.object = (source store).map Line.object := by
  rw [land, filter_missingOf nodup_all (mem_all store), missingIn, map_line_landings, List.map_append]
  have htake : (destination store).map Line.object =
      ((source store).map Line.object).take (destination store).length := by
    rw [← List.length_map (f := Line.object)]
    exact List.prefix_iff_eq_take.mp hbegins
  rw [htake, List.map_drop, List.take_append_drop]

end Landing

section Runs

variable {source destination : Stores Value}

/-- Whether a copy was refused. -/
def isRefused : Except CopyError Copied → Bool
  | .ok _ => false
  | .error e => e.isRefused

theorem copy_of_copyIn {run : CopyRun} {answers : List Answer} {e : CopyError} {p : Progress Value}
    (h : copyIn run source destination answers = (some e, p)) :
    copy run source destination answers = (.error e, p.landed) := by
  rw [copy, h]

/-- A copy that verified every store, one refused, and one that ended at a provider's error. -/
theorem copy_cases (run : CopyRun) (source destination : Stores Value) (answers : List Answer) :
    (reads source destination Store.all answers = Store.all ∧
        (∀ store, Prefixed (destination store) (source store)) ∧
        isRefused (copy run source destination answers).1 = false ∧
        (copy run source destination answers).2 <+: missingOf source destination Store.all ∧
        ∀ copied, (copy run source destination answers).1 = .ok copied →
          (copy run source destination answers).2 = missingOf source destination Store.all) ∨
      ((∃ store ∈ reads source destination Store.all answers, ¬ Prefixed (destination store) (source store)) ∧
        isRefused (copy run source destination answers).1 = true ∧ (copy run source destination answers).2 = []) ∨
      (reads source destination Store.all answers ≠ Store.all ∧
        (∀ store ∈ reads source destination Store.all answers, Prefixed (destination store) (source store)) ∧
        (∃ e, (copy run source destination answers).1 = .error e ∧ e.isRefused = false) ∧
        (copy run source destination answers).2 = []) := by
  obtain ⟨p, hv, hlanded, hreads, hall⟩ | ⟨e, p, hv, hlanded, he, hread⟩ | ⟨e, p, hv, hlanded, he, hreads, hall⟩ :=
    verify_cases run source destination Store.all ⟨answers, 0, 0, []⟩
  · refine .inl ⟨hreads, fun store => hall store (mem_all store), ?_⟩
    obtain ⟨l, hl, hbegins, hresult⟩ := appendStores_spec run (Store.all.map (verifiedOf source destination)) p
    have hin : copyIn run source destination answers =
        appendStores run (Store.all.map (verifiedOf source destination)) p := by rw [copyIn, hv]
    rw [hlanded, List.nil_append] at hl
    cases happend : appendStores run (Store.all.map (verifiedOf source destination)) p with
    | mk e p' =>
      rw [happend] at hin hl hresult
      cases e with
      | none =>
        have hcopy : copy run source destination answers = (.ok ⟨p'.position, p'.copied⟩, p'.landed) := by rw [copy, hin]
        rw [hcopy]
        exact ⟨rfl, hl ▸ hbegins, fun _ _ => hl.trans hresult⟩
      | some e =>
        rw [copy_of_copyIn hin]
        exact ⟨hresult, hl ▸ hbegins, fun _ h => by cases h⟩
  · have hin : copyIn run source destination answers = (some e, p) := by rw [copyIn, hv]
    rw [copy_of_copyIn hin]
    exact .inr (.inl ⟨hread, he, hlanded⟩)
  · have hin : copyIn run source destination answers = (some e, p) := by rw [copyIn, hv]
    rw [copy_of_copyIn hin]
    exact .inr (.inr ⟨hreads, hall, ⟨e, rfl, he⟩, hlanded⟩)

/-- What a copy lands is the first part of what was missing. -/
theorem landed_prefix (run : CopyRun) (source destination : Stores Value) (answers : List Answer) :
    (copy run source destination answers).2 <+: missingOf source destination Store.all := by
  obtain ⟨-, -, -, hbegins, -⟩ | ⟨-, -, hnone⟩ | ⟨-, -, -, hnone⟩ := copy_cases run source destination answers
  · exact hbegins
  · rw [hnone]
    exact List.nil_prefix
  · rw [hnone]
    exact List.nil_prefix

/-- A run of the copy, and how each of its calls goes. -/
structure Attempt where
  run : CopyRun
  answers : List Answer

/-- The destination and everything that landed in it, after one more run. -/
def resume (source : Stores Value) (s : Stores Value × List (Landed Value)) (a : Attempt) :
    Stores Value × List (Landed Value) :=
  (land s.1 (copy a.run source s.1 a.answers).2, s.2 ++ (copy a.run source s.1 a.answers).2)

def resumed (source destination : Stores Value) (attempts : List Attempt) : Stores Value × List (Landed Value) :=
  attempts.foldl (resume source) (destination, [])

/-- What landed stands at its place in the source, within what the destination holds, and landed once. -/
structure Placed (source : Stores Value) (s : Stores Value × List (Landed Value)) : Prop where
  within : ∀ x ∈ s.2, x.place < (s.1 x.store).length
  lines : ∀ x ∈ s.2, (source x.store)[x.place]? = some x.line
  once : (s.2.map Landed.key).Nodup

theorem Placed.resume {s : Stores Value × List (Landed Value)} (h : Placed source s) (a : Attempt) :
    Placed source (resume source s a) := by
  have hbegins := landed_prefix a.run source s.1 a.answers
  generalize hl : (copy a.run source s.1 a.answers).2 = l at hbegins
  have hnew : ∀ x ∈ l, x ∈ missingIn source s.1 x.store := fun x hx => (of_mem_missingOf (hbegins.subset hx)).2
  have hfrom : ∀ x ∈ l, (s.1 x.store).length ≤ x.place := fun x hx => (of_mem_landings (hnew x hx)).2.1
  have hlength : ∀ store, (land s.1 l store).length = (s.1 store).length + (l.filter fun y => y.store = store).length := by
    intro store
    rw [land, List.length_append, List.length_map]
  rw [StorageCopy.resume, hl]
  refine ⟨fun x hx => ?_, fun x hx => ?_, ?_⟩
  · simp only [hlength]
    rcases List.mem_append.mp hx with hx | hx
    · have hlt := h.within x hx
      omega
    · exact place_lt_of_prefix (filter_prefix_missingIn hbegins x.store) (List.mem_filter.mpr ⟨hx, by simp⟩)
  · rcases List.mem_append.mp hx with hx | hx
    · exact h.lines x hx
    · obtain ⟨-, hle, hget⟩ := of_mem_landings (hnew x hx)
      rw [List.getElem?_drop] at hget
      rwa [show (s.1 x.store).length + (x.place - (s.1 x.store).length) = x.place by omega] at hget
  · simp only [List.map_append]
    refine List.nodup_append.mpr ⟨h.once, ?_, fun a ha b hb heq => ?_⟩
    · exact (nodup_missingOf nodup_all).sublist (hbegins.sublist.map _)
    · obtain ⟨x, hx, rfl⟩ := List.mem_map.mp ha
      obtain ⟨y, hy, rfl⟩ := List.mem_map.mp hb
      have hstore : x.store = y.store := congrArg Prod.fst heq
      have hplace : x.place = y.place := congrArg Prod.snd heq
      have hlt := h.within x hx
      have hle := hfrom y hy
      rw [← hstore] at hle
      omega

theorem placed_resumed (source destination : Stores Value) (attempts : List Attempt) :
    Placed source (resumed source destination attempts) := by
  have hstart : Placed source (destination, []) := ⟨List.forall_mem_nil _, List.forall_mem_nil _, List.nodup_nil⟩
  exact GuardedRuns.invariant_run (I := Placed source) (fun _ a hs => hs.resume a) hstart attempts

/-- However many runs came before and whatever erred, a copy is refused just when a store it read is no
prefix of the source's, and then lands nothing; else each store it read is a prefix at all times. It
answers only with every store copied, and no place of the source lands twice over all runs. -/
theorem copy_extends_prefixes (source destination : Stores Value) (attempts : List Attempt) (a : Attempt) :
    let held := (resumed source destination attempts).1
    let answer := copy a.run source held a.answers
    let stores := reads source held Store.all a.answers
    (isRefused answer.1 = true ↔ ∃ store ∈ stores, ¬ Prefixed (held store) (source store)) ∧
      (isRefused answer.1 = true → answer.2 = []) ∧
      (isRefused answer.1 = false → (∀ store ∈ stores, ∀ l, l <+: answer.2 → Prefixed (land held l store) (source store)) ∧
        (stores = Store.all ∨ answer.2 = [])) ∧
      (∀ copied, answer.1 = .ok copied →
        ∀ store, (land held answer.2 store).map Line.object = (source store).map Line.object) ∧
      ((resumed source destination (attempts ++ [a])).2.map Landed.key).Nodup ∧
      ∀ x ∈ (resumed source destination (attempts ++ [a])).2, (source x.store)[x.place]? = some x.line := by
  intro held answer stores
  have hplaced := placed_resumed source destination (attempts ++ [a])
  refine ⟨?_, ?_, ?_, ?_, hplaced.once, hplaced.lines⟩
  · obtain ⟨-, hall, hnot, -⟩ | ⟨hread, hrefused, -⟩ | ⟨-, hall, ⟨e, he, hnot⟩, -⟩ := copy_cases a.run source held a.answers
    · refine ⟨fun h => absurd (hnot.symm.trans h) (by decide), fun ⟨store, _, h⟩ => absurd (hall store) h⟩
    · exact ⟨fun _ => hread, fun _ => hrefused⟩
    · refine ⟨fun h => ?_, fun ⟨store, hs, h⟩ => absurd (hall store hs) h⟩
      change isRefused (copy a.run source held a.answers).1 = true at h
      rw [he, isRefused, hnot] at h
      cases h
  · intro h
    obtain ⟨-, -, hnot, -⟩ | ⟨-, -, hnone⟩ | ⟨-, -, -, hnone⟩ := copy_cases a.run source held a.answers
    · exact absurd (hnot.symm.trans h) (by decide)
    · exact hnone
    · exact hnone
  · intro h
    obtain ⟨hreads, hall, -, hbegins, -⟩ | ⟨-, hrefused, -⟩ | ⟨-, hall, -, hnone⟩ := copy_cases a.run source held a.answers
    · exact ⟨fun store _ l hl => land_prefixed (hl.trans hbegins) (hall store), .inl hreads⟩
    · exact absurd (hrefused.symm.trans h) (by decide)
    · refine ⟨fun store hs l hl => ?_, .inr hnone⟩
      change l <+: (copy a.run source held a.answers).2 at hl
      rw [hnone, List.prefix_nil] at hl
      rw [hl, land, List.filter_nil, List.map_nil, List.append_nil]
      exact hall store hs
  · intro copied hok store
    obtain ⟨-, hall, -, -, hdone⟩ | ⟨-, hrefused, -⟩ | ⟨-, -, ⟨e, he, -⟩, -⟩ := copy_cases a.run source held a.answers
    · change (land held (copy a.run source held a.answers).2 store).map Line.object = _
      rw [hdone copied hok]
      exact land_missing_objects (hall store)
    · change (copy a.run source held a.answers).1 = .ok copied at hok
      rw [hok] at hrefused
      cases hrefused
    · exact absurd (he.symm.trans hok) (fun h => by cases h)

end Runs

/-- A line of one id. -/
def lineOf (id : String) : Line Unit where
  offset := none
  attributes := ⟨id, "source", "rdm.node", none, none, "", none, none⟩
  data := ()
  object := utf8 id

def changeRun : CopyRun := ⟨"000000000001", "old", "new"⟩

/-- Two lines of one store. -/
def twoNodes : Stores Unit
  | .nodes => [lineOf "a", lineOf "b"]
  | _ => []

/-- Every store read, and the answer to the first append lost after it landed. -/
def lostAnswer : Attempt := ⟨changeRun, List.replicate 12 .answers ++ [.errs (.io "nodes" "timed out") true]⟩

/-- A copy resumed after a lost answer copies the rest. -/
theorem twoNodes_resumed : ∀ store,
    (land (resumed twoNodes (fun _ => []) [lostAnswer]).1
      (copy changeRun twoNodes (resumed twoNodes (fun _ => []) [lostAnswer]).1 []).2 store).map Line.object =
      (twoNodes store).map Line.object := by
  have hok : (copy changeRun twoNodes (resumed twoNodes (fun _ => []) [lostAnswer]).1 []).1 = .ok ⟨2, 1⟩ := rfl
  exact (copy_extends_prefixes twoNodes (fun _ => []) [lostAnswer] ⟨changeRun, []⟩).2.2.2.1 ⟨2, 1⟩ hok

/-- A destination with a line of its own in the store that is read last. -/
def foreignEvent : Stores Unit
  | .events => [lineOf "a"]
  | _ => []

/-- A copy that no provider answered is not refused, and has read no store. -/
theorem unread_store_no_prefix : ¬ ∀ (source destination : Stores Unit) (attempts : List Attempt) (a : Attempt),
    isRefused (copy a.run source (resumed source destination attempts).1 a.answers).1 = false →
      ∀ (store : Store) (l : List (Landed Unit)),
        l <+: (copy a.run source (resumed source destination attempts).1 a.answers).2 →
          Prefixed (land (resumed source destination attempts).1 l store) (source store) := by
  intro h
  have hevents := h (fun _ => []) foreignEvent [] ⟨changeRun, [.errs (.io "fabric" "timed out") false]⟩ rfl .events []
    List.nil_prefix
  exact absurd hevents (by decide)

end StorageCopy

end DistributedMesh
