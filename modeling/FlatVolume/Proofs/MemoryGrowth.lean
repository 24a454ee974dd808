import FlatVolume.Proofs.MemoryVolume

/-!
# Growth of files in memory

A request to files in memory leaves every file at least as long as it was. What opening adds are
zeros behind the end, so that no byte changes, and what a write adds in front of its data are zeros
too.
-/

namespace FlatVolume

/-- What every request keeps, every run keeps. -/
theorem Program.run_keeps {Handle Cache σ α : Type} {host : Host Handle Cache σ} {kept : σ → Prop}
    (keeps : ∀ request state, kept state → kept (host.answer request state).2)
    (p : Program Handle Cache α) {state : σ} (h : kept state) : kept (p.run host state).2 := by
  induction p generalizing state with
  | done a => exact h
  | ask request next ih =>
    apply ih
    exact keeps request state h

namespace Memory

variable {m : Memory} {key key' : String} {files : List DeclaredFile}

theorem bytes_put (m : Memory) (key key' : String) (contents : Contents) :
    (m.put key contents).bytes key' = if key = key' then contents.toBytes else m.bytes key' := by
  rw [bytes_eq, contents?_put]
  split
  · rfl
  · rw [bytes_eq]

/-- A file that is put in place of a longer or equally long one. -/
theorem length_bytes_put_le {contents : Contents} (h : (m.file key).size ≤ contents.size)
    (key' : String) : (m.bytes key').length ≤ ((m.put key contents).bytes key').length := by
  rw [bytes_put]
  split
  · rename_i hkey
    rw [← hkey, bytes, Contents.length_toBytes, Contents.length_toBytes]
    exact h
  · exact Nat.le_refl _

theorem length_bytes_openFile_le (m : Memory) (path : List String) (length : Nat) (key : String) :
    (m.bytes key).length ≤ ((m.openFile path length).2.bytes key).length := by
  unfold openFile
  cases Path.check path with
  | error e => exact Nat.le_refl _
  | ok =>
    dsimp only
    split
    · apply length_bytes_put_le
      exact Nat.le_refl _
    · apply length_bytes_put_le
      exact Nat.le_max_left _ _

theorem length_bytes_write_le (m : Memory) (file : String) (data : Bytes) (offset : Nat)
    (key : String) : (m.bytes key).length ≤ ((m.write file data offset).2.bytes key).length := by
  unfold write
  cases Word.add? offset data.length with
  | none => exact Nat.le_refl _
  | some stop =>
    dsimp only
    split
    · exact Nat.le_refl _
    · apply length_bytes_put_le
      exact Nat.le_max_left _ _

theorem length_bytes_answer_le (request : Request String Empty) (m : Memory) (key : String) :
    (m.bytes key).length ≤ ((host.answer request m).2.bytes key).length := by
  cases request with
  | openFile path length => exact length_bytes_openFile_le m path length key
  | writeHandle file data offset => exact length_bytes_write_le m file data offset key
  | readHandle _ _ _ => exact Nat.le_refl _
  | closeHandle _ => exact Nat.le_refl _
  | log _ => exact Nat.le_refl _
  | readCache cache _ _ => exact cache.elim
  | writeCache cache _ _ => exact cache.elim
  | markCommitted cache _ => exact cache.elim
  | closeCache cache => exact cache.elim

/-- A volume whose files are long enough keeps them so, whatever runs. -/
theorem Covers.run {α : Type} {v : Volume String Empty} (covers : m.Covers v)
    (p : Program String Empty α) : (p.run host m).2.Covers v := by
  have keeps : ∀ request m, Covers m v → Covers (host.answer request m).2 v := by
    intro request m covers e he
    have hbefore := covers e he
    have hgrown := length_bytes_answer_le request m e.handle
    omega
  exact Program.run_keeps keeps p covers

theorem byte_put_extend (m : Memory) (key : String) (length : Nat) :
    backing.Same m (m.put key ((m.file key).extend length)) := by
  intro key' i
  simp only [backing]
  rw [bytes_put]
  split
  · rename_i hkey
    rw [← hkey, Contents.toBytes_extend]
    exact Bytes.getD_extend _ _ _
  · rfl

theorem same_openAll (m : Memory) (files : List DeclaredFile) :
    backing.Same m (m.openAll files) := by
  induction files generalizing m with
  | nil => exact .refl m
  | cons file rest ih => exact (byte_put_extend m file.displayPath file.length).trans (ih _)

theorem length_bytes_openAll_le (m : Memory) (files : List DeclaredFile) (key : String) :
    (m.bytes key).length ≤ ((m.openAll files).bytes key).length := by
  induction files generalizing m with
  | nil => exact Nat.le_refl _
  | cons file rest ih =>
    apply Nat.le_trans (length_bytes_put_le _ key) (ih _)
    exact Nat.le_max_left _ _

/-- Declared files are as long as they are declared, whether or not others have their paths. -/
theorem length_le_bytes_openAll {file : DeclaredFile} (hf : file ∈ files) :
    file.length ≤ ((m.openAll files).bytes file.displayPath).length := by
  induction files generalizing m with
  | nil => exact absurd hf List.not_mem_nil
  | cons first rest ih =>
    rw [openAll]
    rcases List.mem_cons.mp hf with rfl | hf
    · apply Nat.le_trans ?_ (length_bytes_openAll_le _ rest _)
      rw [bytes_put, if_pos rfl, Contents.length_toBytes]
      exact Nat.le_max_right _ _
    · exact ih hf

end Memory

end FlatVolume
