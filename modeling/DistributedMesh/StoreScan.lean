import DistributedMesh.StoreSegments

namespace DistributedMesh

variable {Value : Type} {serde : Serde Value} {formats : Formats Value}

theorem takeWhile_unended {x : Bytes} (h : newline ∉ x) : x.takeWhile (· ≠ newline) = x := by
  rw [List.takeWhile_eq_self_iff]
  intro b hb
  have hne : b ≠ newline := fun he => h (he ▸ hb)
  simpa using hne

theorem takeWhile_line {seg : Bytes} (rest : Bytes) (h : newline ∉ seg) :
    (seg ++ newline :: rest).takeWhile (· ≠ newline) = seg := by
  have hs := takeWhile_unended h
  rw [List.takeWhile_eq_self_iff] at hs
  rw [List.takeWhile_append_of_pos hs, List.takeWhile_cons_of_neg (by simp), List.append_nil]

theorem drop_line (seg rest : Bytes) : (seg ++ newline :: rest).drop (seg.length + 1) = rest := by
  rw [← List.drop_drop, List.drop_left]
  rfl

/-- A property of byte strings is shown line by line, down to the part after the last newline. -/
theorem lines_induct {P : Bytes → Prop} (unended : ∀ x, newline ∉ x → P x)
    (line : ∀ seg rest, newline ∉ seg → P rest → P (seg ++ newline :: rest)) (bytes : Bytes) :
    P bytes := by
  induction hn : bytes.length using Nat.strongRecOn generalizing bytes with
  | ind n ih =>
    by_cases h : newline ∈ bytes
    · obtain ⟨seg, rest, rfl, hs⟩ := List.eq_append_cons_of_mem h
      have hlt : rest.length < n := by
        rw [← hn]
        simp only [List.length_append, List.length_cons]
        omega
      exact line seg rest hs (ih rest.length hlt rest rfl)
    · exact unended bytes h

theorem scanLoop_unended {x : Bytes} (h : newline ∉ x) (at_ : Nat) (ls : List (Line Value)) :
    scanLoop serde formats x at_ ls = .ok ⟨ls, at_, if x = [] then none else some (at_, x)⟩ := by
  rw [scanLoop, if_neg h]

theorem scanLoop_line {seg : Bytes} (rest : Bytes) (h : newline ∉ seg) (at_ : Nat)
    (ls : List (Line Value)) :
    scanLoop serde formats (seg ++ newline :: rest) at_ ls =
      if seg = [] then scanLoop serde formats rest (at_ + (seg.length + 1)) ls
      else match verify serde formats seg at_ with
        | .error why => .error (at_, why)
        | .ok l => scanLoop serde formats rest (at_ + (seg.length + 1)) (ls ++ [l]) := by
  rw [scanLoop, if_pos (by simp)]
  by_cases hseg : seg = []
  · simp only [takeWhile_line rest h, drop_line, if_pos hseg]
  · cases hv : verify serde formats seg at_ with
    | error why => simp only [takeWhile_line rest h, drop_line, if_neg hseg, hv]
    | ok l => simp only [takeWhile_line rest h, drop_line, if_neg hseg, hv]

/-- Scanning goes on from where the lines before were read whole to. -/
theorem scanLoop_append {a b : Bytes} {at_ c : Nat} {ls ls' : List (Line Value)}
    (h : scanLoop serde formats a at_ ls = .ok ⟨ls', c, none⟩) :
    scanLoop serde formats (a ++ b) at_ ls = scanLoop serde formats b c ls' := by
  induction a using lines_induct generalizing at_ ls with
  | unended x hx =>
    rw [scanLoop_unended hx] at h
    by_cases hn : x = []
    · subst hn
      cases h
      rfl
    · simp [hn] at h
  | line seg rest hs ih =>
    rw [scanLoop_line rest hs] at h
    rw [List.append_assoc, List.cons_append, scanLoop_line (rest ++ b) hs]
    by_cases hn : seg = []
    · rw [if_pos hn] at h ⊢
      exact ih h
    · rw [if_neg hn] at h ⊢
      cases hv : verify serde formats seg at_ with
      | error why => simp [hv] at h
      | ok l =>
        simp only [hv] at h ⊢
        exact ih h

/-- The lines read before stand before the lines a scan finds. -/
theorem scanLoop_lines {bytes : Bytes} {at_ : Nat} {ls : List (Line Value)} {s : Scan Value}
    (h : scanLoop serde formats bytes at_ [] = .ok s) :
    scanLoop serde formats bytes at_ ls = .ok { s with lines := ls ++ s.lines } := by
  have hgen : ∀ xs ys : List (Line Value), ∀ s, scanLoop serde formats bytes at_ ys = .ok s →
      scanLoop serde formats bytes at_ (xs ++ ys) = .ok { s with lines := xs ++ s.lines } := by
    clear h
    induction bytes using lines_induct generalizing at_ with
    | unended x hx =>
      intro xs ys s h
      rw [scanLoop_unended hx] at h ⊢
      cases h
      rfl
    | line seg rest hs ih =>
      intro xs ys s h
      rw [scanLoop_line rest hs] at h ⊢
      by_cases hn : seg = []
      · rw [if_pos hn] at h ⊢
        exact ih xs ys s h
      · rw [if_neg hn] at h ⊢
        cases hv : verify serde formats seg at_ with
        | error why => simp [hv] at h
        | ok l =>
          simp only [hv] at h ⊢
          rw [List.append_assoc]
          exact ih xs (ys ++ [l]) s h
  have hg := hgen ls [] s h
  rwa [List.append_nil] at hg

/-- What a scan found: its lines are those of the bytes up to its offset, which ends a line. -/
theorem scanLoop_consumed {bytes : Bytes} {at_ : Nat} {ls : List (Line Value)} {s : Scan Value}
    (h : scanLoop serde formats bytes at_ ls = .ok s) :
    ∃ k, k ≤ bytes.length ∧ s.consumed = at_ + k ∧
      (k = 0 ∨ (bytes.take k).getLast? = some newline) ∧
      scanLoop serde formats (bytes.take k) at_ ls = .ok ⟨s.lines, s.consumed, none⟩ := by
  induction bytes using lines_induct generalizing at_ ls with
  | unended x hx =>
    rw [scanLoop_unended hx] at h
    cases h
    refine ⟨0, Nat.zero_le _, rfl, Or.inl rfl, ?_⟩
    rw [List.take_zero, scanLoop_unended (by simp)]
    rfl
  | line seg rest hs ih =>
    have hstep : ∀ ls', scanLoop serde formats rest (at_ + (seg.length + 1)) ls' = .ok s →
        ∃ k, k ≤ rest.length ∧ s.consumed = at_ + (seg.length + 1 + k) ∧
          (seg ++ newline :: rest).take (seg.length + 1 + k) = seg ++ newline :: rest.take k ∧
          (seg ++ newline :: rest.take k).getLast? = some newline ∧
          scanLoop serde formats (rest.take k) (at_ + (seg.length + 1)) ls' =
            .ok ⟨s.lines, s.consumed, none⟩ := by
      intro ls' hr
      obtain ⟨k, hk, hc, hl, hsc⟩ := ih hr
      refine ⟨k, hk, by omega, ?_, ?_, hsc⟩
      · rw [Nat.add_assoc, List.take_length_add_append, Nat.add_comm 1 k, List.take_succ_cons]
      · rcases hl with rfl | hl
        · simp
        · rw [List.getLast?_append, List.getLast?_cons, hl]
          rfl
    rw [scanLoop_line rest hs] at h
    by_cases hn : seg = []
    · rw [if_pos hn] at h
      obtain ⟨k, hk, hc, ht, hl, hsc⟩ := hstep ls h
      refine ⟨seg.length + 1 + k, ?_, hc, Or.inr (ht ▸ hl), ?_⟩
      · simp only [List.length_append, List.length_cons]
        omega
      · rw [ht, scanLoop_line _ hs, if_pos hn]
        exact hsc
    · rw [if_neg hn] at h
      cases hv : verify serde formats seg at_ with
      | error why => simp [hv] at h
      | ok l =>
        simp only [hv] at h
        obtain ⟨k, hk, hc, ht, hl, hsc⟩ := hstep (ls ++ [l]) h
        refine ⟨seg.length + 1 + k, ?_, hc, Or.inr (ht ▸ hl), ?_⟩
        · simp only [List.length_append, List.length_cons]
          omega
        · rw [ht, scanLoop_line _ hs, if_neg hn, hv]
          exact hsc

/-- What a scan leaves: the bytes after its offset, in which no line ends. -/
theorem scanLoop_tail {bytes : Bytes} {at_ : Nat} {ls : List (Line Value)} {s : Scan Value}
    (h : scanLoop serde formats bytes at_ ls = .ok s) :
    ∃ k, s.consumed = at_ + k ∧ k ≤ bytes.length ∧ newline ∉ bytes.drop k ∧
      s.tail = if bytes.drop k = [] then none else some (s.consumed, bytes.drop k) := by
  induction bytes using lines_induct generalizing at_ ls with
  | unended x hx =>
    rw [scanLoop_unended hx] at h
    cases h
    exact ⟨0, rfl, Nat.zero_le _, hx, rfl⟩
  | line seg rest hs ih =>
    have hstep : ∀ ls', scanLoop serde formats rest (at_ + (seg.length + 1)) ls' = .ok s →
        ∃ k, s.consumed = at_ + k ∧ k ≤ (seg ++ newline :: rest).length ∧
          newline ∉ (seg ++ newline :: rest).drop k ∧
          s.tail = if (seg ++ newline :: rest).drop k = [] then none
            else some (s.consumed, (seg ++ newline :: rest).drop k) := by
      intro ls' hr
      obtain ⟨k, hc, hk, hn, ht⟩ := ih hr
      have hdrop : (seg ++ newline :: rest).drop (seg.length + 1 + k) = rest.drop k := by
        rw [← List.drop_drop, drop_line]
      refine ⟨seg.length + 1 + k, by omega, ?_, ?_, ?_⟩
      · simp only [List.length_append, List.length_cons]
        omega
      · rw [hdrop]
        exact hn
      · rw [hdrop]
        exact ht
    rw [scanLoop_line rest hs] at h
    by_cases hn : seg = []
    · rw [if_pos hn] at h
      exact hstep ls h
    · rw [if_neg hn] at h
      cases hv : verify serde formats seg at_ with
      | error why => simp [hv] at h
      | ok l =>
        simp only [hv] at h
        exact hstep (ls ++ [l]) h

/-- The lines of the file from `start` up to `consumed`, an offset just after a newline. -/
structure Covers (serde : Serde Value) (formats : Formats Value) (file : Bytes) (start : Nat)
    (lines : List (Line Value)) (consumed : Nat) : Prop where
  from_ : start ≤ consumed
  ended : LineStart file consumed
  scanned : scan serde formats ((file.take consumed).drop start) start = .ok ⟨lines, consumed, none⟩

theorem Covers.append {file : Bytes} {start consumed : Nat} {lines : List (Line Value)}
    (h : Covers serde formats file start lines consumed) (w : Bytes) :
    Covers serde formats (file ++ w) start lines consumed := by
  refine ⟨h.from_, h.ended.append w, ?_⟩
  rw [List.take_append_of_le_length h.ended.1]
  exact h.scanned

theorem Covers.trans {file : Bytes} {a b c : Nat} {ls ls' : List (Line Value)}
    (h : Covers serde formats file a ls b) (h' : Covers serde formats file b ls' c) :
    Covers serde formats file a (ls ++ ls') c := by
  refine ⟨Nat.le_trans h.from_ h'.from_, h'.ended, ?_⟩
  have hb := h.ended.1
  have hsplit : (file.take c).drop a = (file.take b).drop a ++ (file.take c).drop b := by
    have hab := h.from_
    have hbc := h'.from_
    have hcut : file.take c = file.take b ++ (file.take c).drop b := by
      have ht := List.take_append_drop b (file.take c)
      rw [List.take_take, Nat.min_eq_left hbc] at ht
      exact ht.symm
    have hlen : a ≤ (file.take b).length := by
      rw [List.length_take]
      omega
    rw [← List.drop_append_of_le_length hlen, ← hcut]
  rw [scan, hsplit, scanLoop_append h.scanned]
  exact scanLoop_lines h'.scanned

/-- A scan of the file's bytes from a line's start covers them up to its offset. -/
theorem scan_covers {file : Bytes} {start : Nat} {s : Scan Value} (hs : LineStart file start)
    (h : scan serde formats (file.drop start) start = .ok s) :
    Covers serde formats file start s.lines s.consumed := by
  obtain ⟨k, hk, hc, hl, hsc⟩ := scanLoop_consumed h
  have hlen : start + k ≤ file.length := by
    rw [List.length_drop] at hk
    have := hs.1
    omega
  have ht : (file.take s.consumed).drop start = (file.drop start).take k := by
    rw [hc, List.drop_take, Nat.add_sub_cancel_left]
  refine ⟨by omega, ⟨by omega, ?_⟩, by rw [ht]; exact hsc⟩
  rcases hl with rfl | hl
  · rw [hc, Nat.add_zero]
    exact hs.2
  · right
    rw [hc, List.take_add, List.getLast?_append, hl]
    rfl

/-- The file a read saw is consumed through its last newline, and what stands after it is told as unended. -/
structure Drained (seen : Bytes) (consumed : Nat) (unended : Option (Nat × Nat)) : Prop where
  within : consumed ≤ seen.length
  rest : newline ∉ seen.drop consumed
  told : unended = if seen.drop consumed = [] then none else some (consumed, (seen.drop consumed).length)

theorem scan_drained {file : Bytes} {start : Nat} {s : Scan Value} (hs : start ≤ file.length)
    (h : scan serde formats (file.drop start) start = .ok s) :
    Drained file s.consumed (s.tail.map fun t => (t.1, t.2.length)) := by
  obtain ⟨k, hc, hk, hn, ht⟩ := scanLoop_tail h
  have hdrop : (file.drop start).drop k = file.drop s.consumed := by
    rw [List.drop_drop, hc]
  rw [hdrop] at hn ht
  refine ⟨?_, hn, ?_⟩
  · rw [List.length_drop] at hk
    omega
  · rw [ht]
    split
    · rfl
    · rfl

end DistributedMesh
