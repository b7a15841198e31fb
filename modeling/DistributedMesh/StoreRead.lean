import DistributedMesh.StoreLog
import DistributedMesh.StoreScan

namespace DistributedMesh

open Interleaving

variable {Value α : Type}

theorem Outcome.answer_cases (f : Outcome) (a : α) :
    f.answer a = .ok a ∨ ∃ why, f.answer a = .error why := by
  cases f with
  | whole => exact Or.inl rfl
  | short n => exact Or.inl rfl
  | failed n why => exact Or.inr ⟨why, rfl⟩

theorem Outcome.put_prefix (f : Outcome) (bytes : Bytes) : f.put bytes <+: bytes := by
  cases f with
  | whole => exact List.prefix_refl bytes
  | short n => exact List.take_prefix n bytes
  | failed n why => exact List.take_prefix n bytes

/-- A read of the file beside other writers: they only append, and it appends newlines alone. -/
def readContract : Contract Outcome (View Value) where
  rely s t := s.file <+: t.file
  guar s t := ∃ w, w <+: [newline] ∧ t = { s with file := s.file ++ w }
  fault _ := True
  waits := False
  rely_refl s := List.prefix_refl s.file
  rely_trans := List.IsPrefix.trans

theorem readContract_same (v : View Value) : readContract.guar v v :=
  ⟨[], by simp, by simp⟩

theorem LineStart.extends {file file' : Bytes} {n : Nat} (h : LineStart file n)
    (hf : file <+: file') : LineStart file' n := by
  obtain ⟨w, rfl⟩ := hf
  exact h.append w

theorem Covers.extends {serde : Serde Value} {formats : Formats Value} {file file' : Bytes}
    {start consumed : Nat} {lines : List (Line Value)}
    (h : Covers serde formats file start lines consumed) (hf : file <+: file') :
    Covers serde formats file' start lines consumed := by
  obtain ⟨w, rfl⟩ := hf
  exact h.append w

/-- What `read_whole` answers: the lines it read whole, in whatever the file has grown to, through the last newline of the
file as it saw it, which had grown from `base`. -/
def ReadWhole (log : StoreLog Value) (base : Bytes) (start : Nat)
    (r : Except StorageError (List (Line Value) × Nat × Option (Nat × Nat))) (v : View Value) :
    Prop :=
  ∀ out, r = .ok out → Covers log.serde log.formats v.file start out.1 out.2.1 ∧
    ∃ seen, base <+: seen ∧ seen <+: v.file ∧ Drained seen out.2.1 out.2.2

theorem ReadWhole.error {log : StoreLog Value} {base : Bytes} {start : Nat} {e : StorageError} {v : View Value} :
    (Program.ret (.error e) : Disk Value _).Safe DiskOp.step readContract (ReadWhole log base start) v := by
  intro t _ out h
  simp at h

/-- The second read of `read_whole`, once it has ended an object, and every read up to that point:
`again` is what follows the newline it appends. -/
theorem readWhole_round (log : StoreLog Value) {v : View Value} {base : Bytes} {start : Nat} (kind : ReadKind)
    (ended : Bool) (hs : LineStart v.file start) (hbase : base <+: v.file)
    (again : ended = false → ∀ t : View Value, LineStart t.file start → base <+: t.file →
      (log.readWhole start kind true).Safe DiskOp.step readContract (ReadWhole log base start) t) :
    (log.readWhole start kind ended).Safe DiskOp.step readContract (ReadWhole log base start) v := by
  rw [StoreLog.readWhole]
  intro t ht f _
  refine ⟨readContract_same t, ?_⟩
  have hst := hs.extends ht
  have hgrown := hbase.trans ht
  rcases f.answer_cases (t.file.drop start) with he | ⟨why, he⟩
  · rw [he]
    dsimp only [Program.bind]
    cases hscan : scan log.serde log.formats (t.file.drop start) start with
    | error e => exact ReadWhole.error
    | ok s =>
      have hcov := scan_covers hst hscan
      have hdrained := scan_drained hst.1 hscan
      have hanswer : ∀ u, (s.tail.map fun t => (t.1, t.2.length)) = u →
          (Program.ret (.ok (s.lines, s.consumed, u)) : Disk Value _).Safe DiskOp.step readContract
            (ReadWhole log base start) t := by
        rintro u rfl t' ht' out hout
        cases hout
        exact ⟨hcov.extends ht', t.file, hgrown, ht', hdrained⟩
      dsimp only [Program.pure_eq]
      split
      next htail => exact hanswer none (by rw [htail]; rfl)
      next a tail htail =>
        cases hv : verify log.serde log.formats tail a with
        | error why =>
          cases kind with
          | «open» => exact ReadWhole.error
          | tail => exact hanswer _ (by rw [htail]; rfl)
        | ok l =>
          dsimp only
          split
          next => exact ReadWhole.error
          next hended =>
            intro t₁ ht₁ f₁ _
            have hst₁ := (hst.extends ht₁).append (f₁.put [newline])
            refine ⟨⟨f₁.put [newline], f₁.put_prefix _, rfl⟩, ?_⟩
            rcases f₁.answer_cases (f₁.put [newline]).length with he₁ | ⟨why, he₁⟩
            · rw [he₁]
              dsimp only [Program.bind]
              split
              next => exact ReadWhole.error
              next =>
                intro t₂ ht₂ f₂ _
                refine ⟨readContract_same t₂, ?_⟩
                rcases f₂.answer_cases () with he₂ | ⟨why, he₂⟩
                · rw [he₂]
                  have hgrown₁ := (hgrown.trans ht₁).trans (List.prefix_append _ (f₁.put [newline]))
                  exact again (by simpa using hended) t₂ (hst₁.extends ht₂) (hgrown₁.trans ht₂)
                · rw [he₂]
                  exact ReadWhole.error
            · rw [he₁]
              exact ReadWhole.error
  · rw [he]
    exact ReadWhole.error

theorem readWhole_safe (log : StoreLog Value) {v : View Value} {base : Bytes} {start : Nat} (kind : ReadKind)
    (hs : LineStart v.file start) (hbase : base <+: v.file) :
    (log.readWhole start kind false).Safe DiskOp.step readContract (ReadWhole log base start) v :=
  readWhole_round log kind false hs hbase fun _ _ ht hgrown =>
    readWhole_round log kind true ht hgrown fun h => absurd h (by simp)

end DistributedMesh
