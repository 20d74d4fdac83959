import Mathlib.Data.List.TakeWhile
import Mathlib.Data.Vector.Basic

/-!
# Memory regions

Two views of memory. A fixed array of cells, which a write may not leave: a write that does not fit
has no result. And memory seen from a pointer on, a cell for every offset, where copying a block
changes the cells of the block and no others; a string is what stands there before a mark.
-/

namespace Region

variable {α : Type*} {n : Nat}

/-- `cells` with `block` laid over them from `offset` on. -/
def overlay (cells : List α) (offset : Nat) (block : List α) : List α :=
  cells.take offset ++ block ++ cells.drop (offset + block.length)

theorem length_overlay {cells block : List α} {offset : Nat}
    (hfits : offset + block.length ≤ cells.length) :
    (overlay cells offset block).length = cells.length := by
  simp only [overlay, List.length_append, List.length_take, List.length_drop]
  omega

/-- A block copied into a fixed array, or `none` when it would leave the array. -/
def write (cells : List.Vector α n) (offset : Nat) (block : List α) : Option (List.Vector α n) :=
  if hfits : offset + block.length ≤ n then
    some ⟨overlay cells.toList offset block,
      (length_overlay (by rwa [cells.toList_length])).trans cells.toList_length⟩
  else none

theorem write_of_fits (cells : List.Vector α n) {offset : Nat} {block : List α}
    (hfits : offset + block.length ≤ n) :
    ∃ cells', write cells offset block = some cells'
      ∧ cells'.toList = overlay cells.toList offset block :=
  ⟨_, dif_pos hfits, rfl⟩

theorem toList_of_write {cells cells' : List.Vector α n} {offset : Nat} {block : List α}
    (h : write cells offset block = some cells') :
    offset + block.length ≤ n ∧ cells'.toList = overlay cells.toList offset block := by
  unfold write at h
  split at h
  · next hfits => exact ⟨hfits, by rw [← Option.some.inj h]; rfl⟩
  · cases h

theorem take_overlay {cells block : List α} {offset : Nat}
    (hfits : offset + block.length ≤ cells.length) :
    (overlay cells offset block).take (offset + block.length)
      = cells.take offset ++ block := by
  rw [overlay, List.take_append_of_le_length, List.take_of_length_le]
  · simp
  · simp only [List.length_append, List.length_take]
    omega

theorem overlay_nil (cells : List α) (offset : Nat) : overlay cells offset [] = cells := by
  rw [overlay, List.append_nil, List.length_nil, Nat.add_zero, List.take_append_drop]

theorem drop_overlay {cells block : List α} {offset : Nat}
    (hfits : offset + block.length ≤ cells.length) (n : Nat) :
    (overlay cells offset block).drop (offset + block.length + n)
      = cells.drop (offset + block.length + n) := by
  have hlen : (cells.take offset ++ block).length = offset + block.length := by
    rw [List.length_append, List.length_take, Nat.min_eq_left (by omega)]
  rw [overlay, ← hlen, ← List.drop_drop, List.drop_left, List.drop_drop, hlen]

theorem overlay_append {cells block block' : List α} {offset : Nat}
    (hfits : offset + block.length ≤ cells.length) :
    overlay (overlay cells offset block) (offset + block.length) block'
      = overlay cells offset (block ++ block') := by
  rw [overlay, take_overlay hfits, drop_overlay hfits, overlay, List.length_append,
    List.append_assoc, List.append_assoc, List.append_assoc, List.append_assoc, Nat.add_assoc]

theorem write_nil {cells : List.Vector α n} {offset : Nat} (hfits : offset ≤ n) :
    write cells offset [] = some cells := by
  have hempty : offset + ([] : List α).length ≤ n := hfits
  obtain ⟨cells', hwrite, hlist⟩ := write_of_fits cells hempty
  rw [overlay_nil] at hlist
  rw [hwrite, List.Vector.toList_injective hlist]

/-- Two blocks one behind the other are one block. -/
theorem write_append (cells : List.Vector α n) (offset : Nat) (block block' : List α) :
    write cells offset (block ++ block') = (write cells offset block).bind fun cells =>
      write cells (offset + block.length) block' := by
  by_cases hfits : offset + (block ++ block').length ≤ n
  · obtain ⟨both, hboth, hlist⟩ := write_of_fits cells hfits
    rw [List.length_append] at hfits
    have hfirst : offset + block.length ≤ n := by omega
    obtain ⟨first, hwrite, hlist₁⟩ := write_of_fits cells hfirst
    have hsecond : offset + block.length + block'.length ≤ n := by omega
    obtain ⟨second, hwrite₂, hlist₂⟩ := write_of_fits first hsecond
    rw [hlist₁, overlay_append (by rwa [cells.toList_length]), ← hlist] at hlist₂
    rw [hboth, hwrite, Option.bind_some, hwrite₂, List.Vector.toList_injective hlist₂]
  · rw [write, dif_neg hfits]
    rw [List.length_append] at hfits
    cases hwrite : write cells offset block with
    | none => rfl
    | some first => rw [Option.bind_some, write, dif_neg (by omega)]

/-! ### Memory behind a pointer -/

def read (cells : Nat → α) (offset length : Nat) : List α :=
  (List.range length).map fun i => cells (offset + i)

/-- Memory after a block is copied to `offset`. -/
def store (cells : Nat → α) (offset : Nat) (block : List α) : Nat → α := fun i =>
  if offset ≤ i then block[i - offset]?.getD (cells i) else cells i

@[simp] theorem length_read (cells : Nat → α) (offset length : Nat) :
    (read cells offset length).length = length := by
  simp [read]

theorem read_store (cells : Nat → α) (offset : Nat) (block : List α) :
    read (store cells offset block) offset block.length = block := by
  apply List.ext_getElem
  · simp
  · intro i h1 h2
    simp [read, store, h2]

theorem store_append (cells : Nat → α) (offset : Nat) (block block' : List α) :
    store (store cells offset block) (offset + block.length) block'
      = store cells offset (block ++ block') := by
  funext i
  by_cases hstart : offset ≤ i
  swap
  · simp only [store, if_neg hstart, if_neg (show ¬offset + block.length ≤ i by omega)]
  by_cases hsecond : offset + block.length ≤ i
  · have hpast : block.length ≤ i - offset := by omega
    simp only [store, if_pos hstart, if_pos hsecond]
    rw [List.getElem?_append_right hpast, List.getElem?_eq_none hpast, Nat.sub_add_eq,
      Option.getD_none]
  · have hinside : i - offset < block.length := by omega
    simp only [store, if_pos hstart, if_neg hsecond]
    rw [List.getElem?_append_left hinside]

theorem read_getD {cells : List α} {offset length : Nat} (hfits : offset + length ≤ cells.length)
    (fill : α) :
    read (fun i => cells.getD i fill) offset length = (cells.drop offset).take length := by
  apply List.ext_getElem
  · simp only [length_read, List.length_take, List.length_drop]
    omega
  · intro i h1 h2
    rw [length_read] at h1
    have hi : offset + i < cells.length := by omega
    simp [read, hi]

theorem store_getElem (cells : Nat → α) (block : List α) {i : Nat} (hi : i < block.length) :
    store cells 0 block i = block[i] := by
  simp [store, hi]

theorem read_store_append (cells : Nat → α) (block rest : List α) :
    read (store cells 0 (block ++ rest)) 0 block.length = block := by
  apply List.ext_getElem
  · simp
  · intro i h1 h2
    have hi : i < (block ++ rest).length := by
      rw [List.length_append]
      omega
    simp [read, store_getElem cells _ hi, h2]

/-! ### Strings that end at a mark -/

/-- `text` is what stands in memory before the first `mark`. -/
structure IsString (mark : α) (cells : Nat → α) (text : List α) : Prop where
  read_eq : read cells 0 text.length = text
  ends : cells text.length = mark
  unmarked : mark ∉ text

theorem isString_store {mark : α} {text : List α} (hmark : mark ∉ text) (cells : Nat → α)
    (rest : List α) : IsString mark (store cells 0 (text ++ mark :: rest)) text where
  read_eq := read_store_append cells text (mark :: rest)
  ends := by
    rw [store_getElem cells _ (by simp), List.getElem_append_right (le_refl _)]
    simp
  unmarked := hmark

/-- A block with a mark behind it reads up to its own first mark. -/
theorem isString_takeWhile [DecidableEq α] (mark : α) (cells : Nat → α) (block : List α) :
    IsString mark (store cells 0 (block ++ [mark])) (block.takeWhile (· ≠ mark)) := by
  have hsplit : ∃ rest, block ++ [mark] = block.takeWhile (· ≠ mark) ++ mark :: rest := by
    induction block with
    | nil => exact ⟨[], rfl⟩
    | cons a block ih =>
        obtain ⟨rest, hrest⟩ := ih
        by_cases ha : a = mark
        · exact ⟨block ++ [mark], by simp [ha]⟩
        · exact ⟨rest, by simpa [ha] using hrest⟩
  obtain ⟨rest, hrest⟩ := hsplit
  have hunmarked : mark ∉ block.takeWhile (· ≠ mark) := by
    intro hmem
    simpa using List.mem_takeWhile_imp hmem
  rw [hrest]
  exact isString_store hunmarked cells rest

end Region
