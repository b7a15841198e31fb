import DistributedMesh.BuildConvergence
import DistributedMesh.GuardedRuns

namespace DistributedMesh.Build

open GuardedRuns

variable {T : Type}

/-- Where a reader's call is. -/
inductive Reader (T : Type) where
  | idle
  /-- It reads the file; the file held so many records when it began. -/
  | reading (mark : Nat)
  /-- It drained the queue and holds no lock. -/
  | holding (hand : List (Record T))
  /-- It holds the writer, to take what it read. -/
  | taking (hand : List (Record T))
  /-- Its try for the writer failed. -/
  | refused (hand : List (Record T))

def Reader.hand : Reader T → List (Record T)
  | .idle => []
  | .reading _ => []
  | .holding hand => hand
  | .taking hand => hand
  | .refused hand => hand

/-- What a turn is for; a record it writes takes the line id minted for it. -/
inductive TurnOp (T : Type) where
  | publishAccepted (id : String) (accepted : BuildAccepted T)
  | forget (id buildId : String)
  /-- A tenure's first read, or a read at a start. -/
  | read

/-- The writer: who holds it, and where that turn is. -/
inductive Writer (T : Type) where
  | free
  | reader (k : Nat)
  /-- The sync began when the file held so many records. -/
  | begun (op : TurnOp T) (mark : Nat)
  | holding (op : TurnOp T) (mark : Nat) (hand : List (Record T))
  /-- The sync answered Ok. -/
  | synced (op : TurnOp T) (mark : Nat)
  /-- The record is in the file. -/
  | written (mark : Nat) (r : Record T)

def Writer.hand : Writer T → List (Record T)
  | .holding _ _ hand => hand
  | _ => []

/-- A journal, the calls on it, and the records that were taken into its log. -/
structure Shared (T : Type) where
  journal : Journal T
  readers : List (Reader T)
  writer : Writer T
  taken : List (Record T)

/-- What happens next: another process appends, the file's fold reads on, or a call goes one step on. -/
inductive Move (T : Type) where
  /-- Another process's record, or one of a dropped append, is whole in the file. -/
  | foreign (r : Record T)
  /-- The file's fold shows one more record. -/
  | shows
  | readerStarts
  | readerFails (k : Nat)
  | readerDrains (k : Nat)
  /-- The try for the writer succeeds. -/
  | readerLocks (k : Nat)
  | readerTakes (k : Nat)
  /-- The try for the writer fails. -/
  | readerMisses (k : Nat)
  /-- What was read goes back to the front of the queue. -/
  | readerPutsBack (k : Nat)
  | turnStarts (op : TurnOp T)
  | turnDrains
  | turnTakes
  | turnWrites
  | turnPublishes
  /-- The turn has nothing to write, its call failed, or its task was dropped at an await. -/
  | turnEnds

namespace Shared

def start : Shared T := ⟨.opened, [], .free, []⟩

def hands (s : Shared T) : List (Record T) := s.readers.flatMap Reader.hand

variable [DecidableEq T]

/-- The record a turn whose sync answered is to write, when it writes one. -/
def toWrite (s : Shared T) : Option (Record T) :=
  match s.writer with
  | .synced (.publishAccepted id accepted) _ =>
    if acceptedConflict s.journal.log.facts accepted = .ok false ∧ isNew s.journal.log.facts (.accepted accepted) = true then
      some (id, ⟨s.journal.nextSeq, .accepted accepted⟩)
    else none
  | .synced (.forget id buildId) _ =>
    if isNew s.journal.log.facts (.forget buildId) = true then some (id, ⟨s.journal.nextSeq, .forget buildId⟩) else none
  | _ => none

def step (s : Shared T) : Move T → Shared T
  -- A line id is minted for one line.
  | .foreign r =>
    if r.1 ∈ s.journal.file.map Prod.fst then s
    else { s with journal := { s.journal with file := s.journal.file ++ [r] } }
  | .shows =>
    match s.journal.file[s.journal.consumed]? with
    | some r =>
      { s with journal := { s.journal with consumed := s.journal.consumed + 1, unread := s.journal.unread ++ [r] } }
    | none => s
  | .readerStarts => { s with readers := s.readers ++ [.reading s.journal.file.length] }
  | .readerFails k =>
    match s.readers[k]? with
    | some (.reading _) => { s with readers := s.readers.set k .idle }
    | _ => s
  | .readerDrains k =>
    match s.readers[k]? with
    | some (.reading mark) =>
      if mark ≤ s.journal.consumed then
        { s with journal := s.journal.drain.2, readers := s.readers.set k (.holding s.journal.drain.1) }
      else s
    | _ => s
  | .readerLocks k =>
    match s.readers[k]?, s.writer with
    | some (.holding hand), .free => { s with readers := s.readers.set k (.taking hand), writer := .reader k }
    | _, _ => s
  | .readerTakes k =>
    match s.readers[k]?, s.writer with
    | some (.taking hand), .reader _ => ⟨s.journal.takeRead hand, s.readers.set k .idle, .free, s.taken ++ hand⟩
    | _, _ => s
  | .readerMisses k =>
    match s.readers[k]?, s.writer with
    | some (.holding _), .free => s
    | some (.holding hand), _ => { s with readers := s.readers.set k (.refused hand) }
    | _, _ => s
  -- The writer may be free again by now.
  | .readerPutsBack k =>
    match s.readers[k]? with
    | some (.refused hand) =>
      { s with journal := { s.journal with unread := hand ++ s.journal.unread }, readers := s.readers.set k .idle }
    | _ => s
  | .turnStarts op =>
    match s.writer with
    | .free => { s with writer := .begun op s.journal.file.length }
    | _ => s
  | .turnDrains =>
    match s.writer with
    | .begun op mark =>
      if mark ≤ s.journal.consumed then
        { s with journal := s.journal.drain.2, writer := .holding op mark s.journal.drain.1 }
      else s
    | _ => s
  | .turnTakes =>
    match s.writer with
    | .holding op mark hand => ⟨s.journal.takeRead hand, s.readers, .synced op mark, s.taken ++ hand⟩
    | _ => s
  | .turnWrites =>
    match s.writer, s.toWrite with
    | .synced _ mark, some r =>
      if r.1 ∈ s.journal.file.map Prod.fst then s
      else
        { s with
          journal := { s.journal with file := s.journal.file ++ [r], nextSeq := s.journal.nextSeq + 1 }
          writer := .written mark r }
    | _, _ => s
  | .turnPublishes =>
    match s.writer with
    | .written _ r =>
      { s with
        journal := { s.journal with seen := r.1 :: s.journal.seen, log := s.journal.log.publish [r.2.fact] }
        writer := .free }
    | _ => s
  | .turnEnds =>
    match s.writer with
    | .begun _ _ => { s with writer := .free }
    | .synced _ _ => { s with writer := .free }
    | .written _ _ => { s with writer := .free }
    | _ => s

/-- A turn drains the queue while no reader holds an untaken record the file had when the turn's sync began. -/
def Clear (s : Shared T) : Move T → Prop
  | .turnDrains =>
    match s.writer with
    | .begun _ mark => ∀ r ∈ s.hands, r ∈ s.journal.file.take mark → r.1 ∈ s.journal.seen
    | _ => True
  | _ => True

/-- What every move keeps: the records the fold has read are taken, queued or in a hand, each as often as the file has it,
and a record that was taken is held. -/
structure Whole (s : Shared T) : Prop where
  ids : (s.journal.file.map Prod.fst).Nodup
  read : s.journal.consumed ≤ s.journal.file.length
  kept : (s.journal.file.take s.journal.consumed).Perm (s.taken ++ s.journal.unread ++ s.hands ++ s.writer.hand)
  taken_seen : ∀ r ∈ s.taken, r.1 ∈ s.journal.seen
  seen_file : ∀ id ∈ s.journal.seen, id ∈ s.journal.file.map Prod.fst
  holds : ∀ r ∈ s.journal.file, r.1 ∈ s.journal.seen → isNew s.journal.log.facts r.2.fact = false
  of_file : ∀ f ∈ s.journal.log.facts, ∃ r ∈ s.journal.file, r.2.fact = f
  written : ∀ mark r, s.writer = .written mark r → r ∈ s.journal.file

end Shared

section Taking

variable [DecidableEq T] {held : List (BuildFact T)} {t : Taking T} {r : Record T}

/-- A record a take did not know: its line is marked, and its fact is held from then on. -/
theorem Taking.record_marks (hseen : r.1 ∉ t.seen) :
    (t.record held r).seen = r.1 :: t.seen ∧ isNew (held ++ (t.record held r).new) r.2.fact = false ∧
      ((t.record held r).new = t.new ∨ (t.record held r).new = t.new ++ [r.2.fact]) ∧
      ((t.record held r).stored = t.stored ∨ ∃ a, r.2.fact = .accepted a ∧ (t.record held r).stored = t.stored ++ [a]) := by
  have hmerge : ∀ f : BuildFact T, isNew (held ++ if isNew held f && isNew t.new f then t.new ++ [f] else t.new) f = false := by
    intro f
    split
    next => exact isNew_false_of_mem (by simp)
    next hold =>
      rw [isNew_append]
      simpa using hold
  unfold Taking.record
  rw [if_neg (by simpa using hseen)]
  dsimp only
  cases hfact : r.2.fact with
  | accepted a =>
    dsimp only
    split
    next hother =>
      have hknown : known held a.buildId = true := by
        obtain ⟨f, hf, hsame⟩ := List.any_eq_true.mp hother
        cases f with
        | forget id => cases hsame
        | accepted c =>
          have hid : c.buildId = a.buildId := by
            simp only [Bool.and_eq_true, beq_iff_eq] at hsame
            exact hsame.1
          exact List.any_eq_true.mpr ⟨.accepted c, hf, by simpa using hid⟩
      have hheld : isNew held (.accepted a) = false := by simp [isNew, hknown]
      exact ⟨rfl, by rw [isNew_append, hheld]; rfl, .inl rfl, .inr ⟨a, rfl, rfl⟩⟩
    next =>
      have hnow := hmerge (.accepted a)
      split
      next hnew =>
        rw [if_pos hnew] at hnow
        exact ⟨rfl, hnow, .inr rfl, .inl rfl⟩
      next hold =>
        rw [if_neg hold] at hnow
        exact ⟨rfl, hnow, .inl rfl, .inl rfl⟩
  | forget id =>
    have hnow := hmerge (.forget id)
    dsimp only
    split
    next hnew =>
      rw [if_pos hnew] at hnow
      exact ⟨rfl, hnow, .inr rfl, .inl rfl⟩
    next hold =>
      rw [if_neg hold] at hnow
      exact ⟨rfl, hnow, .inl rfl, .inl rfl⟩

omit [DecidableEq T] in
theorem asStored_cases (stored : List (BuildAccepted T)) (g : BuildFact T) :
    asStored stored g = g ∨ ∃ c ∈ stored, asStored stored g = .accepted c := by
  cases g with
  | forget id => exact .inl rfl
  | accepted a =>
    cases hfound : stored.find? fun s => s.buildId == a.buildId with
    | none => exact .inl (by rw [asStored, hfound]; rfl)
    | some c => exact .inr ⟨c, List.mem_of_find?_eq_some hfound, by rw [asStored, hfound]; rfl⟩

theorem isNew_asStored (stored : List (BuildAccepted T)) (g f : BuildFact T) : isNew [asStored stored g] f = isNew [g] f := by
  cases g with
  | forget id => rfl
  | accepted a =>
    have hid : ((stored.find? fun s => s.buildId == a.buildId).getD a).buildId = a.buildId := by
      cases hfound : stored.find? fun s => s.buildId == a.buildId with
      | none => rfl
      | some c => simpa using List.find?_some hfound
    cases f with
    | accepted c => simp [isNew, known, asStored, hid]
    | forget id => simp [isNew, asStored]

/-- A stored acceptance stands in its Build's place: what is held stays held. -/
theorem isNew_takeStoredAcceptances (log : FactLog T) (stored : List (BuildAccepted T)) (f : BuildFact T) :
    isNew (log.takeStoredAcceptances stored).facts f = isNew log.facts f := by
  unfold FactLog.takeStoredAcceptances
  split
  next => rfl
  next =>
    dsimp only
    induction log.facts with
    | nil => rfl
    | cons g facts ih =>
      have hfirst : ∀ (h : BuildFact T) (rest : List (BuildFact T)), isNew (h :: rest) f = (isNew [h] f && isNew rest f) :=
        fun h rest => isNew_append [h] rest f
      rw [List.map_cons, hfirst, hfirst g, isNew_asStored, ih]

theorem Taking.mem_seen_record (id : String) : id ∈ (t.record held r).seen ↔ id = r.1 ∨ id ∈ t.seen := by
  by_cases hknown : r.1 ∈ t.seen
  · rw [Taking.record_seen hknown]
    refine ⟨.inr, fun hid => hid.elim (fun heq => ?_) fun hseen => hseen⟩
    rw [heq]
    exact hknown
  · rw [(Taking.record_marks hknown).1, List.mem_cons]

theorem Taking.mem_seen_records (read : List (Record T)) (id : String) :
    id ∈ (read.foldl (Taking.record held) t).seen ↔ id ∈ t.seen ∨ id ∈ read.map Prod.fst := by
  induction read generalizing t with
  | nil => simp
  | cons r read ih =>
    rw [List.foldl_cons, ih, Taking.mem_seen_record, List.map_cons, List.mem_cons, or_assoc, or_left_comm]

/-- What a take of the file's records has gathered: the records marked are held, and what it adds is the file's. -/
structure Taking.Marked (held : List (BuildFact T)) (file : List (Record T)) (t : Taking T) : Prop where
  holds : ∀ r ∈ file, r.1 ∈ t.seen → isNew (held ++ t.new) r.2.fact = false
  new : ∀ f ∈ t.new, ∃ r ∈ file, r.2.fact = f
  stored : ∀ a ∈ t.stored, ∃ r ∈ file, r.2.fact = .accepted a

theorem Taking.Marked.record {file : List (Record T)} (h : t.Marked held file) (hids : (file.map Prod.fst).Nodup) (hr : r ∈ file) :
    (t.record held r).Marked held file := by
  by_cases hknown : r.1 ∈ t.seen
  · rw [Taking.record_seen hknown]
    exact h
  · obtain ⟨hmark, hholds, hnews, hstoreds⟩ := @Taking.record_marks T _ held t r hknown
    constructor
    · intro s hs hid
      rw [hmark] at hid
      rcases List.mem_cons.mp hid with hid | hid
      · rw [List.inj_on_of_nodup_map hids hs hr hid]
        exact hholds
      · have hbefore := h.holds s hs hid
        rcases hnews with hnews | hnews
        · rw [hnews]
          exact hbefore
        · rw [hnews, ← List.append_assoc, isNew_append, hbefore]
          rfl
    · intro f hf
      rcases hnews with hnews | hnews
      · rw [hnews] at hf
        exact h.new f hf
      · rw [hnews] at hf
        rcases List.mem_append.mp hf with hf | hf
        · exact h.new f hf
        · exact ⟨r, hr, (List.mem_singleton.mp hf).symm⟩
    · intro a ha
      rcases hstoreds with hstoreds | ⟨c, hc, hstoreds⟩
      · rw [hstoreds] at ha
        exact h.stored a ha
      · rw [hstoreds] at ha
        rcases List.mem_append.mp ha with ha | ha
        · exact h.stored a ha
        · rw [List.mem_singleton.mp ha]
          exact ⟨r, hr, hc⟩

theorem Taking.Marked.records {file read : List (Record T)} (h : t.Marked held file) (hids : (file.map Prod.fst).Nodup)
    (hread : ∀ r ∈ read, r ∈ file) : (read.foldl (Taking.record held) t).Marked held file := by
  induction read generalizing t with
  | nil => exact h
  | cons r read ih =>
    exact ih (h.record hids (hread r List.mem_cons_self)) fun s hs => hread s (List.mem_cons_of_mem r hs)

end Taking

namespace Journal

variable [DecidableEq T] {j : Journal T}

/-- What a take of records of the file leaves: they are marked, and every record marked is held. -/
theorem takeRead_marks (hids : (j.file.map Prod.fst).Nodup) {read : List (Record T)} (hread : ∀ r ∈ read, r ∈ j.file)
    (hholds : ∀ r ∈ j.file, r.1 ∈ j.seen → isNew j.log.facts r.2.fact = false)
    (hfile : ∀ f ∈ j.log.facts, ∃ r ∈ j.file, r.2.fact = f) :
    (j.takeRead read).file = j.file ∧ (j.takeRead read).consumed = j.consumed ∧ (j.takeRead read).unread = j.unread ∧
      (∀ id, id ∈ (j.takeRead read).seen ↔ id ∈ j.seen ∨ id ∈ read.map Prod.fst) ∧
      (∀ r ∈ j.file, r.1 ∈ (j.takeRead read).seen → isNew (j.takeRead read).log.facts r.2.fact = false) ∧
      ∀ f ∈ (j.takeRead read).log.facts, ∃ r ∈ j.file, r.2.fact = f := by
  unfold takeRead
  split
  next hempty =>
    have hnil : read = [] := by simpa using hempty
    subst hnil
    exact ⟨rfl, rfl, rfl, by simp, hholds, hfile⟩
  next =>
    have hsorted : ∀ r ∈ inWrittenOrder read, r ∈ j.file := fun r hr => hread r (mem_inWrittenOrder.mp hr)
    have hstart : Taking.Marked j.log.facts j.file ⟨j.seen, j.nextSeq, [], []⟩ := ⟨by simpa using hholds, by simp, by simp⟩
    obtain ⟨hheld, hnew, hstored⟩ := hstart.records hids hsorted
    refine ⟨rfl, rfl, rfl, fun id => ?_, fun r hr hid => ?_, fun f hf => ?_⟩
    · rw [Taking.mem_seen_records]
      refine or_congr Iff.rfl ?_
      simp only [List.mem_map, mem_inWrittenOrder]
    · dsimp only
      rw [FactLog.facts_publish, isNew_append, isNew_takeStoredAcceptances, ← isNew_append]
      exact hheld r hr hid
    · dsimp only at hf
      rw [FactLog.facts_publish] at hf
      rcases List.mem_append.mp hf with hf | hf
      · unfold FactLog.takeStoredAcceptances at hf
        split at hf
        next => exact hfile f hf
        next =>
          obtain ⟨g, hg, rfl⟩ := List.mem_map.mp hf
          rcases asStored_cases _ g with hsame | ⟨c, hc, hstands⟩
          · rw [hsame]
            exact hfile g hg
          · rw [hstands]
            exact hstored c hc
      · exact hnew f hf

end Journal

namespace Shared

variable {s : Shared T}

theorem hands_set {k : Nat} {before : Reader T} (hk : s.readers[k]? = some before) (after : Reader T) :
    ∃ others : List (Record T), s.hands.Perm (before.hand ++ others) ∧
      ((s.readers.set k after).flatMap Reader.hand).Perm (after.hand ++ others) := by
  obtain ⟨hlt, hget⟩ := List.getElem?_eq_some_iff.mp hk
  have hsplit : s.readers = s.readers.take k ++ before :: s.readers.drop (k + 1) := by
    rw [← hget, List.getElem_cons_drop, List.take_append_drop]
  refine ⟨(s.readers.take k).flatMap Reader.hand ++ (s.readers.drop (k + 1)).flatMap Reader.hand, ?_, ?_⟩
  · unfold hands
    conv_lhs => rw [hsplit]
    rw [List.flatMap_append, List.flatMap_cons, ← List.append_assoc, ← List.append_assoc]
    exact List.perm_append_comm.append_right _
  · rw [List.set_eq_take_append_cons_drop, if_pos hlt, List.flatMap_append, List.flatMap_cons, ← List.append_assoc,
      ← List.append_assoc]
    exact List.perm_append_comm.append_right _

variable [DecidableEq T]

theorem whole_start : (start : Shared T).Whole := by
  refine ⟨by simp [start, Journal.opened], by simp [start, Journal.opened], ?_, by simp [start], ?_, ?_, ?_, ?_⟩
  · simp [start, Journal.opened, hands, Writer.hand]
  · simp [start, Journal.opened]
  · simp [start, Journal.opened]
  · simp [start, Journal.opened, FactLog.empty]
  · intro mark r h
    cases h

theorem Whole.appended (h : s.Whole) {r : Record T} (hr : r.1 ∉ s.journal.file.map Prod.fst) (nextSeq : Nat) {w : Writer T}
    (hw : w.hand = s.writer.hand) (hwritten : ∀ mark d, w = .written mark d → d ∈ s.journal.file ++ [r]) :
    Whole { s with journal := { s.journal with file := s.journal.file ++ [r], nextSeq := nextSeq }, writer := w } := by
  have hread := h.read
  refine ⟨?_, ?_, ?_, h.taken_seen, ?_, ?_, ?_, hwritten⟩
  · show ((s.journal.file ++ [r]).map Prod.fst).Nodup
    rw [List.map_append, List.nodup_append']
    refine ⟨h.ids, by simp, ?_⟩
    rw [List.disjoint_left]
    intro id hid hmem
    have hsame : id = r.1 := by simpa using hmem
    rw [hsame] at hid
    exact hr hid
  · show s.journal.consumed ≤ (s.journal.file ++ [r]).length
    rw [List.length_append]
    omega
  · show ((s.journal.file ++ [r]).take s.journal.consumed).Perm _
    rw [List.take_append_of_le_length hread]
    show (s.journal.file.take s.journal.consumed).Perm (s.taken ++ s.journal.unread ++ s.hands ++ w.hand)
    rw [hw]
    exact h.kept
  · intro id hid
    show id ∈ (s.journal.file ++ [r]).map Prod.fst
    rw [List.map_append]
    exact List.mem_append_left _ (h.seen_file id hid)
  · intro d hd hseen
    rcases List.mem_append.mp hd with hd | hd
    · exact h.holds d hd hseen
    · rw [List.mem_singleton.mp hd] at hseen
      exact absurd (h.seen_file _ hseen) hr
  · intro f hf
    obtain ⟨d, hd, hfact⟩ := h.of_file f hf
    exact ⟨d, List.mem_append_left _ hd, hfact⟩

/-- Records move between the file, the queue and the hands, none of them taken. -/
theorem Whole.moved (h : s.Whole) {consumed : Nat} {unread : List (Record T)} {readers : List (Reader T)} {w : Writer T}
    (hread : consumed ≤ s.journal.file.length)
    (hkept : (s.journal.file.take consumed).Perm (s.taken ++ unread ++ readers.flatMap Reader.hand ++ w.hand))
    (hwritten : ∀ mark d, w = .written mark d → d ∈ s.journal.file) :
    Whole ⟨{ s.journal with consumed := consumed, unread := unread }, readers, w, s.taken⟩ :=
  ⟨h.ids, hread, hkept, h.taken_seen, h.seen_file, h.holds, h.of_file, hwritten⟩

/-- A turn begins or lets the journal go, with no record in hand. -/
theorem Whole.turned (h : s.Whole) {w : Writer T} (hbefore : s.writer.hand = []) (hafter : w.hand = [])
    (hw : ∀ mark d, w ≠ .written mark d) : Whole { s with writer := w } := by
  refine h.moved h.read ?_ fun mark d heq => absurd heq (hw mark d)
  have hkept := h.kept
  rw [hbefore, ← hafter] at hkept
  exact hkept

theorem Whole.shown (h : s.Whole) {r : Record T} (hr : s.journal.file[s.journal.consumed]? = some r) :
    Whole { s with journal := { s.journal with consumed := s.journal.consumed + 1, unread := s.journal.unread ++ [r] } } := by
  have hlt : s.journal.consumed < s.journal.file.length := (List.getElem?_eq_some_iff.mp hr).1
  refine h.moved hlt ?_ h.written
  rw [List.take_add_one, hr, Option.toList_some]
  refine (h.kept.append_right [r]).trans ?_
  simp only [List.append_assoc]
  refine (List.Perm.append_left _ (List.Perm.append_left _ ?_))
  rw [← List.append_assoc]
  exact List.perm_append_comm

theorem Whole.takes (h : s.Whole) {hand : List (Record T)} {readers : List (Reader T)} {w : Writer T}
    (hkept : (s.hands ++ s.writer.hand).Perm (hand ++ (readers.flatMap Reader.hand ++ w.hand)))
    (hwritten : ∀ mark d, w = .written mark d → d ∈ s.journal.file) :
    Whole ⟨s.journal.takeRead hand, readers, w, s.taken ++ hand⟩ := by
  have hall : (s.journal.file.take s.journal.consumed).Perm
      (s.taken ++ hand ++ s.journal.unread ++ readers.flatMap Reader.hand ++ w.hand) := by
    refine h.kept.trans ?_
    have hfront := hkept.append_left (s.taken ++ s.journal.unread)
    simp only [List.append_assoc] at hfront ⊢
    refine hfront.trans ?_
    refine List.Perm.append_left _ ?_
    rw [← List.append_assoc s.journal.unread, ← List.append_assoc hand]
    exact List.perm_append_comm.append_right _
  have hhand : ∀ r ∈ hand, r ∈ s.journal.file := by
    intro r hr
    have hmem : r ∈ s.taken ++ hand ++ s.journal.unread ++ readers.flatMap Reader.hand ++ w.hand := by
      simp [hr]
    exact List.mem_of_mem_take (hall.mem_iff.mpr hmem)
  obtain ⟨hfile, hconsumed, hunread, hmarks, hholds, hof⟩ := Journal.takeRead_marks h.ids hhand h.holds h.of_file
  refine ⟨?_, ?_, ?_, ?_, ?_, ?_, ?_, ?_⟩
  · rw [hfile]
    exact h.ids
  · rw [hfile, hconsumed]
    exact h.read
  · rw [hfile, hconsumed]
    show List.Perm _ (s.taken ++ hand ++ (s.journal.takeRead hand).unread ++ readers.flatMap Reader.hand ++ w.hand)
    rw [hunread]
    exact hall
  · intro r hr
    rw [hmarks]
    rcases List.mem_append.mp hr with hr | hr
    · exact .inl (h.taken_seen r hr)
    · exact .inr (List.mem_map.mpr ⟨r, hr, rfl⟩)
  · intro id hid
    rw [hfile]
    rcases (hmarks id).mp hid with hid | hid
    · exact h.seen_file id hid
    · obtain ⟨r, hr, rfl⟩ := List.mem_map.mp hid
      exact List.mem_map.mpr ⟨r, hhand r hr, rfl⟩
  · rw [hfile]
    exact hholds
  · rw [hfile]
    exact hof
  · rw [hfile]
    exact hwritten

theorem Whole.publishes (h : s.Whole) {mark : Nat} {r : Record T} (hw : s.writer = .written mark r) :
    Whole { s with
      journal := { s.journal with seen := r.1 :: s.journal.seen, log := s.journal.log.publish [r.2.fact] }
      writer := .free } := by
  have hr := h.written mark r hw
  refine ⟨h.ids, h.read, ?_, fun d hd => List.mem_cons_of_mem _ (h.taken_seen d hd), ?_, ?_, ?_, fun _ _ hfree => by cases hfree⟩
  · have hkept := h.kept
    rw [hw] at hkept
    exact hkept
  · intro id hid
    rcases List.mem_cons.mp hid with rfl | hid
    · exact List.mem_map.mpr ⟨r, hr, rfl⟩
    · exact h.seen_file id hid
  · intro d hd hid
    show isNew (s.journal.log.publish [r.2.fact]).facts _ = false
    rw [FactLog.facts_publish]
    rcases List.mem_cons.mp hid with hid | hid
    · rw [List.inj_on_of_nodup_map h.ids hd hr hid]
      exact isNew_false_of_mem (by simp)
    · rw [isNew_append, h.holds d hd hid]
      rfl
  · intro f hf
    have hf : f ∈ (s.journal.log.publish [r.2.fact]).facts := hf
    rw [FactLog.facts_publish] at hf
    rcases List.mem_append.mp hf with hf | hf
    · exact h.of_file f hf
    · exact ⟨r, hr, (List.mem_singleton.mp hf).symm⟩

theorem Whole.reader (h : s.Whole) {k : Nat} {before : Reader T} (hk : s.readers[k]? = some before) (after : Reader T)
    {unread : List (Record T)} {w : Writer T} (hw : w.hand = s.writer.hand)
    (hwritten : ∀ mark d, w = .written mark d → d ∈ s.journal.file)
    (hsame : (s.journal.unread ++ before.hand).Perm (unread ++ after.hand)) :
    Whole ⟨{ s.journal with unread := unread }, s.readers.set k after, w, s.taken⟩ := by
  refine h.moved h.read ?_ hwritten
  obtain ⟨others, hbefore, hafter⟩ := hands_set hk after
  have hkept := h.kept
  simp only [List.append_assoc] at hkept ⊢
  refine hkept.trans (List.Perm.append_left _ ?_)
  rw [hw]
  calc
    List.Perm (s.journal.unread ++ (s.hands ++ s.writer.hand)) (s.journal.unread ++ (before.hand ++ others ++ s.writer.hand)) :=
      (hbefore.append_right s.writer.hand).append_left s.journal.unread
    List.Perm _ (s.journal.unread ++ before.hand ++ (others ++ s.writer.hand)) := by simp [List.append_assoc]
    List.Perm _ (unread ++ after.hand ++ (others ++ s.writer.hand)) := hsame.append_right (others ++ s.writer.hand)
    List.Perm _ (unread ++ (after.hand ++ others ++ s.writer.hand)) := by simp [List.append_assoc]
    List.Perm _ (unread ++ ((s.readers.set k after).flatMap Reader.hand ++ s.writer.hand)) :=
      (hafter.symm.append_right s.writer.hand).append_left unread

theorem Whole.step (h : s.Whole) (m : Move T) : (s.step m).Whole := by
  cases m with
  | foreign r =>
    dsimp only [Shared.step]
    split
    next => exact h
    next hr => exact h.appended hr s.journal.nextSeq rfl fun mark d hw => List.mem_append_left _ (h.written mark d hw)
  | shows =>
    dsimp only [Shared.step]
    split
    next r hr => exact h.shown hr
    next => exact h
  | readerStarts =>
    refine h.moved h.read ?_ h.written
    rw [List.flatMap_append, show ([.reading s.journal.file.length] : List (Reader T)).flatMap Reader.hand = [] from rfl,
      List.append_nil]
    exact h.kept
  | readerFails k =>
    dsimp only [Shared.step]
    split
    next mark hk => exact h.reader hk .idle rfl h.written (List.Perm.refl _)
    next => exact h
  | readerDrains k =>
    dsimp only [Shared.step]
    split
    next mark hk =>
      split
      next => exact h.reader hk _ rfl h.written (by simp [Reader.hand, Journal.drain])
      next => exact h
    next => exact h
  | readerLocks k =>
    dsimp only [Shared.step]
    split
    next hand hk hw =>
      exact h.reader hk _ (by rw [hw]; rfl) (fun _ _ hw => by cases hw) (List.Perm.refl _)
    next => exact h
  | readerTakes k =>
    dsimp only [Shared.step]
    split
    next hand _ hk hw =>
      refine h.takes ?_ fun _ _ hw => by cases hw
      obtain ⟨others, hbefore, hafter⟩ := hands_set hk .idle
      rw [hw, show (Writer.reader _ : Writer T).hand = [] from rfl, show (Writer.free : Writer T).hand = [] from rfl,
        List.append_nil, List.append_nil]
      exact hbefore.trans (hafter.symm.append_left hand)
    next => exact h
  | readerMisses k =>
    dsimp only [Shared.step]
    split
    next => exact h
    next hand hk hw => exact h.reader hk (.refused hand) rfl h.written (List.Perm.refl _)
    next => exact h
  | readerPutsBack k =>
    dsimp only [Shared.step]
    split
    next hand hk => exact h.reader hk .idle rfl h.written (by simpa [Reader.hand] using List.perm_append_comm)
    next => exact h
  | turnStarts op =>
    dsimp only [Shared.step]
    split
    next hw => exact h.turned (by rw [hw]; rfl) rfl fun _ _ heq => by cases heq
    next => exact h
  | turnDrains =>
    dsimp only [Shared.step]
    split
    next op mark hw =>
      split
      next =>
        refine h.moved h.read ?_ fun _ _ hw => by cases hw
        have hkept := h.kept
        rw [hw] at hkept
        refine hkept.trans ?_
        show (s.taken ++ s.journal.unread ++ s.hands ++ []).Perm (s.taken ++ [] ++ s.hands ++ s.journal.unread)
        simp only [List.append_nil, List.append_assoc]
        exact List.perm_append_comm.append_left s.taken
      next => exact h
    next => exact h
  | turnTakes =>
    dsimp only [Shared.step]
    split
    next op mark hand hw =>
      refine h.takes ?_ fun _ _ hw => by cases hw
      rw [hw]
      show (s.hands ++ hand).Perm (hand ++ (s.hands ++ []))
      rw [List.append_nil]
      exact List.perm_append_comm
    next => exact h
  | turnWrites =>
    dsimp only [Shared.step]
    split
    next op mark r hw hr =>
      split
      next => exact h
      next hid =>
        refine h.appended hid _ (by rw [hw]; rfl) fun _ _ hw => ?_
        cases hw
        simp
    next => exact h
  | turnPublishes =>
    dsimp only [Shared.step]
    split
    next mark r hw => exact h.publishes hw
    next => exact h
  | turnEnds =>
    have hfree : s.writer.hand = [] → Whole { s with writer := .free } := fun hhand =>
      h.turned hhand rfl fun _ _ heq => by cases heq
    dsimp only [Shared.step]
    split
    next hw => exact hfree (by rw [hw]; rfl)
    next hw => exact hfree (by rw [hw]; rfl)
    next hw => exact hfree (by rw [hw]; rfl)
    next => exact h

/-- Of the records the file had when the turn's sync began, what the turn has read. -/
def Sees (j : Journal T) : Writer T → Prop
  | .begun _ mark => mark ≤ j.file.length
  | .holding _ mark hand => mark ≤ j.file.length ∧ ∀ r ∈ j.file.take mark, r.1 ∈ j.seen ∨ r ∈ hand
  | .synced _ mark => mark ≤ j.file.length ∧ ∀ r ∈ j.file.take mark, r.1 ∈ j.seen
  | _ => True

omit [DecidableEq T] in
theorem Sees.appended {j : Journal T} {w : Writer T} (h : Sees j w) (r : Record T) :
    Sees { j with file := j.file ++ [r] } w := by
  have hlen : j.file.length ≤ (j.file ++ [r]).length := by simp
  cases w with
  | begun op mark => exact Nat.le_trans h hlen
  | holding op mark hand =>
    refine ⟨Nat.le_trans h.1 hlen, ?_⟩
    show ∀ d ∈ (j.file ++ [r]).take mark, _
    rw [List.take_append_of_le_length h.1]
    exact h.2
  | synced op mark =>
    refine ⟨Nat.le_trans h.1 hlen, ?_⟩
    show ∀ d ∈ (j.file ++ [r]).take mark, _
    rw [List.take_append_of_le_length h.1]
    exact h.2
  | free => trivial
  | reader k => trivial
  | written mark d => trivial

theorem Whole.hand_file (h : s.Whole) {r : Record T} (hr : r ∈ s.writer.hand) : r ∈ s.journal.file := by
  have hmem : r ∈ s.taken ++ s.journal.unread ++ s.hands ++ s.writer.hand := List.mem_append_right _ hr
  exact List.mem_of_mem_take (h.kept.mem_iff.mpr hmem)

/-- A turn whose fold read past its mark drains what of the marked records is not taken yet. -/
theorem Whole.drained (h : s.Whole) {op : TurnOp T} {mark : Nat} (hw : s.writer = .begun op mark)
    (hmark : mark ≤ s.journal.consumed)
    (hclear : ∀ r ∈ s.hands, r ∈ s.journal.file.take mark → r.1 ∈ s.journal.seen) :
    ∀ r ∈ s.journal.file.take mark, r.1 ∈ s.journal.seen ∨ r ∈ s.journal.unread := by
  intro r hr
  -- The record is taken, queued or in a reader's hand.
  have hconsumed : r ∈ s.journal.file.take s.journal.consumed := List.take_subset_take_left _ hmark hr
  have hwhere := h.kept.mem_iff.mp hconsumed
  rw [hw, show (Writer.begun op mark).hand = [] from rfl, List.append_nil] at hwhere
  simp only [List.mem_append] at hwhere
  rcases hwhere with (htaken | hqueued) | hhand
  · exact .inl (h.taken_seen r htaken)
  · exact .inr hqueued
  · exact .inl (hclear r hhand hr)

theorem Sees.step (hs : s.Whole) (h : Sees s.journal s.writer) {m : Move T} (hclear : s.Clear m) :
    Sees (s.step m).journal (s.step m).writer := by
  cases m with
  | foreign r =>
    dsimp only [Shared.step]
    split
    next => exact h
    next => exact h.appended r
  | shows =>
    dsimp only [Shared.step]
    split <;> exact h
  | readerStarts => exact h
  | readerFails k =>
    dsimp only [Shared.step]
    split <;> exact h
  | readerDrains k =>
    dsimp only [Shared.step]
    split
    next => split <;> exact h
    next => exact h
  | readerLocks k =>
    dsimp only [Shared.step]
    split
    next => trivial
    next => exact h
  | readerTakes k =>
    dsimp only [Shared.step]
    split
    next => trivial
    next => exact h
  | readerMisses k =>
    dsimp only [Shared.step]
    split <;> exact h
  | readerPutsBack k =>
    dsimp only [Shared.step]
    split <;> exact h
  | turnStarts op =>
    dsimp only [Shared.step]
    split
    next => exact Nat.le_refl _
    next => exact h
  | turnDrains =>
    dsimp only [Shared.step]
    split
    next op mark hw =>
      split
      next hmark =>
        rw [hw] at h
        unfold Clear at hclear
        rw [hw] at hclear
        exact ⟨h, hs.drained hw hmark hclear⟩
      next => exact h
    next => exact h
  | turnTakes =>
    dsimp only [Shared.step]
    split
    next op mark hand hw =>
      rw [hw] at h
      have hhand : ∀ r ∈ hand, r ∈ s.journal.file := fun r hr => hs.hand_file (by rw [hw]; exact hr)
      obtain ⟨hfile, -, -, hmarks, -, -⟩ := Journal.takeRead_marks hs.ids hhand hs.holds hs.of_file
      refine ⟨by rw [hfile]; exact h.1, ?_⟩
      rw [hfile]
      intro r hr
      rw [hmarks]
      rcases h.2 r hr with hseen | hr
      · exact .inl hseen
      · exact .inr (List.mem_map.mpr ⟨r, hr, rfl⟩)
    next => exact h
  | turnWrites =>
    dsimp only [Shared.step]
    split
    next =>
      split
      next => exact h
      next => trivial
    next => exact h
  | turnPublishes =>
    dsimp only [Shared.step]
    split
    next => trivial
    next => exact h
  | turnEnds =>
    dsimp only [Shared.step]
    split
    next => trivial
    next => trivial
    next => trivial
    next => exact h

/-- What a state shows of the journal's promise: a turn whose sync answered has taken every record the file had when the
sync began, it writes no acceptance of a Build the file had, and the records the fold has read are taken once, queued or
in a hand. -/
structure Prompt (s : Shared T) : Prop where
  synced : ∀ op mark, s.writer = .synced op mark → ∀ r ∈ s.journal.file.take mark,
    r.1 ∈ s.journal.seen ∧ isNew s.journal.log.facts r.2.fact = false ∧
      (OneAcceptance (s.journal.file.map fun r => r.2.fact) → r.2.fact ∈ s.journal.log.facts)
  appends : ∀ id accepted mark, s.writer = .synced (.publishAccepted id accepted) mark →
    known ((s.journal.file.take mark).map fun r => r.2.fact) accepted.buildId = true → s.toWrite = none
  kept : (s.journal.file.take s.journal.consumed).Perm (s.taken ++ s.journal.unread ++ s.hands ++ s.writer.hand)
  once : (s.taken.map Prod.fst).Nodup

theorem Whole.held (h : s.Whole) {r : Record T} (hr : r ∈ s.journal.file) (hseen : r.1 ∈ s.journal.seen)
    (hone : OneAcceptance (s.journal.file.map fun r => r.2.fact)) : r.2.fact ∈ s.journal.log.facts := by
  have hold := h.holds r hr hseen
  cases hfact : r.2.fact with
  | forget id =>
    rw [hfact] at hold
    simpa [isNew] using hold
  | accepted a =>
    rw [hfact] at hold
    have hknown : known s.journal.log.facts a.buildId = true := by simpa [isNew] using hold
    rw [known_eq] at hknown
    obtain ⟨c, hc⟩ := Option.isSome_iff_exists.mp hknown
    obtain ⟨hmem, hid⟩ := acceptance_some hc
    obtain ⟨d, hd, hdfact⟩ := h.of_file _ hmem
    have hsame : c = a := hone c a (List.mem_map.mpr ⟨d, hd, hdfact⟩) (List.mem_map.mpr ⟨r, hr, hfact⟩) hid
    rw [← hsame]
    exact hmem

theorem Whole.prompt (h : s.Whole) (hsees : Sees s.journal s.writer) : s.Prompt := by
  refine ⟨?_, ?_, h.kept, ?_⟩
  · intro op mark hw r hr
    rw [hw] at hsees
    have hfile := List.mem_of_mem_take hr
    have hseen := hsees.2 r hr
    exact ⟨hseen, h.holds r hfile hseen, h.held hfile hseen⟩
  · intro id accepted mark hw hknown
    rw [hw] at hsees
    obtain ⟨f, hf, hid⟩ := List.any_eq_true.mp hknown
    obtain ⟨r, hr, rfl⟩ := List.mem_map.mp hf
    have hold := h.holds r (List.mem_of_mem_take hr) (hsees.2 r hr)
    have hnot : isNew s.journal.log.facts (.accepted accepted) = false := by
      cases hfact : r.2.fact with
      | forget other =>
        rw [hfact] at hid
        cases hid
      | accepted a =>
        rw [hfact] at hid hold
        have hsame : a.buildId = accepted.buildId := by simpa using hid
        simpa [isNew, hsame] using hold
    unfold toWrite
    rw [hw]
    dsimp only
    rw [if_neg (fun hboth => by rw [hnot] at hboth; exact Bool.false_ne_true hboth.2)]
  · have hids : ((s.journal.file.take s.journal.consumed).map Prod.fst).Nodup :=
      h.ids.sublist ((List.take_sublist _ _).map _)
    have hparts := ((h.kept.map Prod.fst).nodup_iff.mp hids)
    rw [List.append_assoc, List.append_assoc, List.map_append] at hparts
    exact (List.nodup_append'.mp hparts).1

/-- In every run of calls on one journal whose turns drain the queue while no reader holds a record they need, every state
reached keeps the journal's promise. -/
theorem turns_see_the_file (moves : List (Move T)) (h : RunOk step Clear start moves) :
    (moves.foldl step start).Prompt := by
  have hrun := RunOk.invariant (I := fun s : Shared T => s.Whole ∧ Sees s.journal s.writer)
    (fun s m hs hclear => ⟨hs.1.step m, Sees.step hs.1 hs.2 hclear⟩) ⟨whole_start, trivial⟩ h
  exact hrun.1.prompt hrun.2

/-- A turn accepts a Build that another process accepted before, no reader between. -/
def undisturbed : List (Move Unit) :=
  [.foreign ("x", ⟨1, .accepted (Builds.sampleBuild "b1" 1)⟩), .shows, .turnStarts (.publishAccepted "y" (Builds.sampleBuild "b1" 1)),
    .turnDrains, .turnTakes]

theorem turns_see_the_file_undisturbed : (undisturbed.foldl step start).Prompt := by
  refine turns_see_the_file undisturbed ⟨trivial, trivial, trivial, fun r hr => ?_, trivial, trivial⟩
  have hnone : r ∈ ([] : List (Record Unit)) := hr
  cases hnone

/-- After the tenure's take, a reader drains the other process's record just before a turn accepts the same Build. -/
def overtaken : List (Move Unit) :=
  [.turnStarts .read, .turnDrains, .turnTakes, .turnEnds, .foreign ("x", ⟨1, .accepted (Builds.sampleBuild "b1" 1)⟩),
    .readerStarts, .shows, .readerDrains 0, .turnStarts (.publishAccepted "y" (Builds.sampleBuild "b1" 1)), .turnDrains,
    .turnTakes]

/-- The turn's sync answers without the record in the reader's hand, and the turn writes a second acceptance. -/
theorem turn_misses_record_in_hand :
    (∃ op, (overtaken.foldl step start).writer = .synced op 1) ∧
      (overtaken.foldl step start).journal.file.take 1 = [("x", ⟨1, .accepted (Builds.sampleBuild "b1" 1)⟩)] ∧
      "x" ∉ (overtaken.foldl step start).journal.seen ∧
      ((overtaken.foldl step start).step .turnWrites).journal.file =
        [("x", ⟨1, .accepted (Builds.sampleBuild "b1" 1)⟩), ("y", ⟨1, .accepted (Builds.sampleBuild "b1" 1)⟩)] := by
  refine ⟨⟨_, rfl⟩, ?_⟩
  decide +kernel

end Shared

end DistributedMesh.Build
