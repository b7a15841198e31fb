import DistributedMesh.ReadStreams

namespace DistributedMesh.ReadStreams

variable {N M F C Q X : Type} {codec : Codec N M F C}

section Packed

/-- Batches that are the rows `l` one after another are batches of `l`. -/
theorem exists_batches {A B : Type} {f : A → B} {batches : List (List B)} {l : List A} (h : batches.flatten = l.map f) :
    ∃ ls : List (List A), batches = ls.map (List.map f) ∧ ls.flatten = l := by
  induction batches generalizing l with
  | nil =>
    have hl : l = [] := by simpa using h.symm
    exact ⟨[], rfl, hl.symm⟩
  | cons batch batches ih =>
    rw [List.flatten_cons] at h
    obtain ⟨front, rest, rfl, hfront, hrest⟩ := List.map_eq_append_iff.mp h.symm
    obtain ⟨ls, hls, hflat⟩ := ih hrest.symm
    refine ⟨front :: ls, ?_, ?_⟩
    · rw [List.map_cons, hfront, ← hls]
    · rw [List.flatten_cons, hflat]

/-- What was packed: the batches of the rows, each of them fitting a frame. -/
theorem readFrames_batches {rows : List (Row N M F C)} {read : String} {frames : List (ReadReply N M F C)}
    (h : readFrames codec rows read = .ok frames) : ∃ batches : List (List (Row N M F C)),
      frames = batches.map Row.frame ∧ batches.flatten = rows ∧ (∀ batch ∈ batches, batch ≠ []) ∧
      ∀ frame ∈ frames, ∃ size, codec.size frame = some size ∧ size ≤ maxReplyFrameBytes := by
  simp only [readFrames] at h
  split at h
  next => cases h
  next hnone =>
    cases h
    refine ⟨(Chunking.packInOrder (measure codec) rows).1.map Prod.fst, ?_, Chunking.packInOrder_flatten hnone, ?_, ?_⟩
    · rw [List.map_map]
      rfl
    · intro batch hbatch
      obtain ⟨p, hp, rfl⟩ := List.mem_map.mp hbatch
      exact (Chunking.packInOrder_fits hp).2
    · intro frame hframe
      obtain ⟨p, hp, rfl⟩ := List.mem_map.mp hframe
      have hfits := (Chunking.packInOrder_fits hp).1
      simp only [measure] at hfits
      split at hfits
      next hle =>
        cases hsize : codec.size (Row.frame p.1) with
        | none =>
          rw [hsize] at hle
          exact absurd hle (by decide)
        | some size =>
          rw [hsize] at hle
          exact ⟨size, rfl, hle⟩
      next => cases hfits

theorem length_readFrames {rows : List (Row N M F C)} {read : String} {frames : List (ReadReply N M F C)}
    (h : readFrames codec rows read = .ok frames) : frames.length ≤ rows.length := by
  have hlength := Chunking.packInOrder_length (measure codec) rows
  simp only [readFrames] at h
  split at h
  next => cases h
  next =>
    cases h
    rw [List.length_map]
    exact hlength

/-- Rows of one entity are packed into frames of it. -/
theorem readFrames_entity {A : Type} {row : A → Row N M F C} {reply : List A → ReadReply N M F C}
    (hframe : ∀ l, l ≠ [] → Row.frame (l.map row) = reply l) {l : List A} {read : String} {frames : List (ReadReply N M F C)}
    (h : readFrames codec (l.map row) read = .ok frames) : ∃ ls : List (List A), frames = ls.map reply ∧ ls.flatten = l := by
  obtain ⟨batches, rfl, hflat, hne, -⟩ := readFrames_batches h
  obtain ⟨ls, rfl, hls⟩ := exists_batches hflat
  refine ⟨ls, ?_, hls⟩
  rw [List.map_map]
  refine List.map_congr_left fun batch hbatch => hframe batch fun hnil => ?_
  have hmapped := hne (batch.map row) (List.mem_map_of_mem hbatch)
  rw [hnil] at hmapped
  exact hmapped rfl

theorem frame_nodes (l : List N) (h : l ≠ []) : Row.frame (l.map (Row.node (M := M) (F := F) (C := C))) = .nodes l := by
  cases l with
  | nil => exact absurd rfl h
  | cons n l => simp [Row.frame, List.filterMap_map, Row.node?, Function.comp_def]

theorem frame_meshes (l : List M) (h : l ≠ []) : Row.frame (l.map (Row.mesh (N := N) (F := F) (C := C))) = .meshes l := by
  cases l with
  | nil => exact absurd rfl h
  | cons n l => simp [Row.frame, List.filterMap_map, Row.mesh?, Function.comp_def]

theorem frame_fabrics (l : List F) (h : l ≠ []) : Row.frame (l.map (Row.fabric (N := N) (M := M) (C := C))) = .fabrics l := by
  cases l with
  | nil => exact absurd rfl h
  | cons n l => simp [Row.frame, List.filterMap_map, Row.fabric?, Function.comp_def]

theorem frame_connections (node : String) (complete : Bool) (l : List (Option C)) (h : l ≠ []) :
    Row.frame (l.map (Row.connection (N := N) (M := M) (F := F) node complete)) =
      .connections node complete (l.filterMap id) := by
  cases l with
  | nil => exact absurd rfl h
  | cons n l =>
    have hsame : (Row.connection? ∘ Row.connection (N := N) (M := M) (F := F) (C := C) node complete) = id := rfl
    simp only [Row.frame, List.map_cons, List.head?_cons]
    rw [← List.map_cons, List.filterMap_map, hsame]

/-- The connections of rows, or the one row without one. -/
def connectionRows : List C → List (Option C)
  | [] => [none]
  | cs => cs.map some

theorem connectionRows_ne_nil (cs : List C) : connectionRows cs ≠ [] := by
  cases cs <;> simp [connectionRows]

theorem filterMap_connectionRows (cs : List C) : (connectionRows cs).filterMap id = cs := by
  cases cs with
  | nil => rfl
  | cons c cs => simp [connectionRows]

theorem intoRows_connections (node : String) (complete : Bool) (cs : List C) :
    (Rows.connections (N := N) (M := M) (F := F) ⟨node, complete, cs⟩).intoRows =
      (connectionRows cs).map (Row.connection node complete) := by
  cases cs with
  | nil => rfl
  | cons c cs => simp [Rows.intoRows, connectionRows]

end Packed

section Taken

/-- The rows with those of data frames, one frame after another. -/
def Rows.takeAll : Rows N M F C → List (ReadReply N M F C) → Option (Rows N M F C)
  | rows, [] => some rows
  | rows, frame :: frames => (rows.take frame).bind fun rows => rows.takeAll frames

/-- Frames that append their rows. -/
theorem takeAll_appends {A : Type} {rows : List A → Rows N M F C} {reply : List A → ReadReply N M F C}
    (htake : ∀ held more, (rows held).take (reply more) = some (rows (held ++ more))) (held : List A) (ls : List (List A)) :
    (rows held).takeAll (ls.map reply) = some (rows (held ++ ls.flatten)) := by
  induction ls generalizing held with
  | nil => simp [Rows.takeAll]
  | cons l ls ih => simp [Rows.takeAll, htake, ih, List.append_assoc]

/-- Frames none of which is taken are none. -/
theorem eq_nil_of_takeAll {rows taken : Rows N M F C} {frames : List (ReadReply N M F C)}
    (hnone : ∀ frame ∈ frames, rows.take frame = none) (h : rows.takeAll frames = some taken) : frames = [] ∧ taken = rows := by
  cases frames with
  | nil => exact ⟨rfl, by simpa [Rows.takeAll] using h.symm⟩
  | cons frame frames => simp [Rows.takeAll, hnone frame List.mem_cons_self] at h

theorem takeAll_connections {node : String} {complete : Bool} (hnode : node ≠ "") (held : List C) (ls : List (List C)) :
    (Rows.connections (N := N) (M := M) (F := F) ⟨node, complete, held⟩).takeAll (ls.map (.connections node complete)) =
      some (.connections ⟨node, complete, held ++ ls.flatten⟩) := by
  have htake : ∀ held more : List C, (Rows.connections (N := N) (M := M) (F := F) ⟨node, complete, held⟩).take
      (.connections node complete more) = some (.connections ⟨node, complete, held ++ more⟩) := by
    intro held more
    simp [Rows.take, hnode]
  exact takeAll_appends htake held ls

/-- A caller that has its first frame of connections takes the node and completeness it names. -/
theorem takeAll_first {node : String} {complete : Bool} {taken : Rows N M F C} {l : List C} {ls : List (List C)}
    (h : (Rows.connections (N := N) (M := M) (F := F) ⟨"", false, []⟩).takeAll
      ((l :: ls).map (.connections node complete)) = some taken) :
    node ≠ "" ∧ taken = .connections ⟨node, complete, (l :: ls).flatten⟩ := by
  by_cases hnode : node = ""
  · simp [Rows.takeAll, Rows.take, hnode] at h
  · refine ⟨hnode, ?_⟩
    have htake : (Rows.connections (N := N) (M := M) (F := F) ⟨"", false, []⟩).take (.connections node complete l) =
        some (.connections ⟨node, complete, l⟩) := by simp [Rows.take, hnode]
    rw [List.map_cons, Rows.takeAll, htake, Option.bind_some, takeAll_connections hnode] at h
    cases h
    rfl

/-- The empty rows a caller begins with. -/
theorem emptyRows_cases {req : ReadRequest Q} {rows : Rows N M F C} (h : emptyRows req = some rows) :
    (rows.intoRows = [] ∧ ∀ result : Except (ReadEnd N M F C X) (Rows N M F C), answered req result = result) ∨
      (rows = .connections ⟨"", false, []⟩ ∧ answered req (.ok rows : Except (ReadEnd N M F C X) _) = .error .noConnections) := by
  cases req with
  | get entity filter =>
    left
    cases entity with
    | connections => cases h
    | nodes | meshes | fabrics =>
      cases h
      exact ⟨rfl, fun _ => rfl⟩
  | getConnections node incarnation filter =>
    right
    cases h
    exact ⟨rfl, rfl⟩

/-- Frames that are not of the rows a caller begins with are taken only where there are none. -/
theorem answered_other {req : ReadRequest Q} {rows taken r : Rows N M F C} {frames : List (ReadReply N M F C)}
    (hempty : emptyRows req = some rows) (hnone : ∀ frame ∈ frames, rows.take frame = none)
    (htaken : rows.takeAll frames = some taken)
    (hr : answered req (.ok taken : Except (ReadEnd N M F C X) _) = .ok r) : frames = [] ∧ r.intoRows = [] := by
  obtain ⟨hframes, rfl⟩ := eq_nil_of_takeAll hnone htaken
  refine ⟨hframes, ?_⟩
  rcases emptyRows_cases (X := X) hempty with ⟨hnil, hsame⟩ | ⟨-, herror⟩
  · rw [hsame] at hr
    cases hr
    exact hnil
  · rw [herror] at hr
    cases hr

/-- Rows of an entity that are taken are those that were packed. -/
theorem answered_entity {A : Type} {rows : List A → Rows N M F C} {reply : List A → ReadReply N M F C} {row : A → Row N M F C}
    (hframe : ∀ l, l ≠ [] → Row.frame (l.map row) = reply l)
    (htake : ∀ held more, (rows held).take (reply more) = some (rows (held ++ more)))
    (hrows : ∀ l, (rows l).intoRows = l.map row) {req : ReadRequest Q} {start taken r : Rows N M F C}
    (hempty : emptyRows req = some start) (hstart : start = rows [] ∧ start.intoRows = [] ∨ ∀ more, start.take (reply more) = none)
    {l : List A} {read : String} {frames : List (ReadReply N M F C)}
    (hframes : readFrames codec (rows l).intoRows read = .ok frames) (htaken : start.takeAll frames = some taken)
    (hr : answered req (.ok taken : Except (ReadEnd N M F C X) _) = .ok r) : r.intoRows = (rows l).intoRows := by
  rw [hrows] at hframes
  obtain ⟨ls, rfl, rfl⟩ := readFrames_entity hframe hframes
  rcases hstart with ⟨rfl, hnil⟩ | hnone
  · rw [takeAll_appends htake, List.nil_append] at htaken
    cases htaken
    rcases emptyRows_cases (X := X) hempty with ⟨-, hsame⟩ | ⟨hconnections, -⟩
    · rw [hsame] at hr
      cases hr
      rfl
    · rw [hconnections] at hnil
      cases hnil
  · have hother : ∀ frame ∈ ls.map reply, start.take frame = none := by
      intro frame hframe
      obtain ⟨more, -, rfl⟩ := List.mem_map.mp hframe
      exact hnone more
    obtain ⟨hframes, hr⟩ := answered_other hempty hother htaken hr
    rw [List.map_eq_nil_iff] at hframes
    rw [hr, hrows, hframes]
    rfl

/-- What a caller answers of the frames of rows it took are the rows. -/
theorem answered_rows {req : ReadRequest Q} {start taken r rows : Rows N M F C} {read : String}
    {frames : List (ReadReply N M F C)} (hempty : emptyRows req = some start)
    (hframes : readFrames codec rows.intoRows read = .ok frames) (htaken : start.takeAll frames = some taken)
    (hr : answered req (.ok taken : Except (ReadEnd N M F C X) _) = .ok r) : r.intoRows = rows.intoRows := by
  cases rows with
  | nodes l =>
    refine answered_entity frame_nodes (fun _ _ => rfl) (fun _ => rfl) hempty ?_ hframes htaken hr
    cases start with
    | nodes held =>
      left
      rcases emptyRows_cases (X := X) hempty with ⟨hnil, -⟩ | ⟨hconnections, -⟩
      · exact ⟨by simpa [Rows.intoRows] using hnil, hnil⟩
      · cases hconnections
    | meshes | fabrics | connections => exact .inr fun _ => rfl
  | meshes l =>
    refine answered_entity frame_meshes (fun _ _ => rfl) (fun _ => rfl) hempty ?_ hframes htaken hr
    cases start with
    | meshes held =>
      left
      rcases emptyRows_cases (X := X) hempty with ⟨hnil, -⟩ | ⟨hconnections, -⟩
      · exact ⟨by simpa [Rows.intoRows] using hnil, hnil⟩
      · cases hconnections
    | nodes | fabrics | connections => exact .inr fun _ => rfl
  | fabrics l =>
    refine answered_entity frame_fabrics (fun _ _ => rfl) (fun _ => rfl) hempty ?_ hframes htaken hr
    cases start with
    | fabrics held =>
      left
      rcases emptyRows_cases (X := X) hempty with ⟨hnil, -⟩ | ⟨hconnections, -⟩
      · exact ⟨by simpa [Rows.intoRows] using hnil, hnil⟩
      · cases hconnections
    | nodes | meshes | connections => exact .inr fun _ => rfl
  | connections view =>
    obtain ⟨node, complete, cs⟩ := view
    rw [intoRows_connections] at hframes ⊢
    obtain ⟨ls, rfl, hls⟩ := readFrames_entity (frame_connections node complete) hframes
    rcases emptyRows_cases (X := X) hempty with ⟨hnil, -⟩ | ⟨rfl, -⟩
    · -- a read of another entity takes no frame of connections, and there is one
      have hother : ∀ frame ∈ ls.map fun l => ReadReply.connections node complete (l.filterMap id), start.take frame = none := by
        intro frame hframe
        obtain ⟨more, -, rfl⟩ := List.mem_map.mp hframe
        cases start with
        | nodes | meshes | fabrics => rfl
        | connections view =>
          obtain ⟨node', complete', cs'⟩ := view
          rw [intoRows_connections, List.map_eq_nil_iff] at hnil
          exact absurd hnil (connectionRows_ne_nil cs')
      obtain ⟨hnone, -⟩ := answered_other hempty hother htaken hr
      rw [List.map_eq_nil_iff] at hnone
      rw [hnone] at hls
      exact absurd hls.symm (connectionRows_ne_nil cs)
    · cases ls with
      | nil => exact absurd hls.symm (connectionRows_ne_nil cs)
      | cons l ls =>
        have hmap : (l :: ls).map (fun l => ReadReply.connections (N := N) (M := M) (F := F) node complete (l.filterMap id)) =
            (l.filterMap id :: ls.map (List.filterMap id)).map (.connections node complete) := by simp
        rw [hmap] at htaken
        obtain ⟨hnode, rfl⟩ := takeAll_first htaken
        have hflat : (l.filterMap id :: ls.map (List.filterMap id)).flatten = cs := by
          rw [← filterMap_connectionRows cs, ← hls, List.filterMap_flatten]
          rfl
        rw [hflat] at hr
        cases req with
        | get entity filter => cases entity <;> cases hempty
        | getConnections asked incarnation filter =>
          simp only [answered, hnode, if_false] at hr
          cases hr
          exact intoRows_connections node complete cs

end Taken

end DistributedMesh.ReadStreams
