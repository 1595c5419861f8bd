import IndexedStore.Proofs.Payload.Codecs
import IndexedStore.Record.Tree
/-!
# Trees as payloads

A tree is read to a bounded depth, and every level of it takes a byte at least. So the bound that the
count of bytes gives is never met: a tree is read back from its bytes (`Tree.readWithin_write`), and
reading it with any larger or smaller bound that covers the bytes it takes reads the same
(`Tree.readWithin_of_taken`). With both, `Tree.lawful` gives trees the laws of a codec.
-/

namespace IndexedStore.Tree

open Payload Payload.Reader Payload.Codec

/-! ## 1. Bytes -/

theorem writeAll_eq (trees : List Tree) : writeAll trees = trees.flatMap write := by
  induction trees with
  | nil => rfl
  | cons tree trees ih => rw [writeAll, ih, List.flatMap_cons]

mutual

theorem length_write : ∀ tree : Tree, (write tree).length = size tree
  | .empty => by rw [write, length_writeVariant, size]; rfl
  | .leaf value => by rw [write, length_writeVariant, lawful_int64.sized, size]
  | .node left right => by
    rw [write, length_writeVariant, List.length_append, length_write left, length_write right, size]
  | .list items => by
    rw [write, length_writeVariant, List.length_append, lawful_count.sized, length_writeAll items,
      size]

theorem length_writeAll : ∀ trees : List Tree, (writeAll trees).length = sizeAll trees
  | [] => rfl
  | tree :: trees => by
    rw [writeAll, List.length_append, length_write tree, length_writeAll trees, sizeAll]

end

theorem length_le_of_mem {tree : Tree} {trees : List Tree} (mem : tree ∈ trees) :
    (write tree).length ≤ (writeAll trees).length := by
  induction trees with
  | nil => exact absurd mem List.not_mem_nil
  | cons head trees ih =>
    rw [writeAll, List.length_append]
    rcases List.mem_cons.mp mem with rfl | later
    · exact Nat.le_add_right ..
    · exact Nat.le_trans (ih later) (Nat.le_add_left ..)

/-! ## 2. Reading back -/

/-- Trees none of whose lists is too long to be counted. -/
inductive Countable : Tree → Prop where
  | empty : Countable .empty
  | leaf (value : Int64) : Countable (.leaf value)
  | node {left right : Tree} : Countable left → Countable right → Countable (.node left right)
  | list {items : List Tree} : items.length < UInt64.size → (∀ item ∈ items, Countable item) →
    Countable (.list items)

/-- A bound that covers a tree's bytes allows for a level. -/
theorem exists_level {tree : Tree} {depth : Nat} (enough : (write tree).length ≤ depth) :
    ∃ below, depth = below + 1 := by
  have taken : 0 < (write tree).length := by
    cases tree <;> exact Nat.zero_lt_of_lt (length_lt_writeVariant ..)
  exact ⟨depth - 1, by omega⟩

theorem readWithin_writeVariant {index : UInt32} (known : index.toNat < 4) (depth : Nat)
    (content rest : Bytes) :
    readWithin (depth + 1) (writeVariant index content ++ rest)
      = readContent (readWithin depth) index.toNat (content ++ rest) := by
  rw [writeVariant_append]
  exact bind_of_ok (readVariant_write known _)

theorem readWithin_write {tree : Tree} (countable : Countable tree) {depth : Nat}
    (enough : (write tree).length ≤ depth) (rest : Bytes) :
    readWithin depth (write tree ++ rest) = .ok (tree, rest) := by
  induction countable generalizing depth rest with
  | empty =>
    obtain ⟨below, rfl⟩ := exists_level enough
    rw [write, readWithin_writeVariant (by decide)]
    rfl
  | leaf value =>
    obtain ⟨below, rfl⟩ := exists_level enough
    rw [write, readWithin_writeVariant (by decide)]
    show (Codec.int64.read >>= _) _ = _
    rw [bind_of_ok (lawful_int64.reads value trivial rest)]
    rfl
  | @node left right _ _ ihLeft ihRight =>
    obtain ⟨below, rfl⟩ := exists_level enough
    have taken := length_lt_writeVariant 2 (write left ++ write right)
    rw [write] at enough
    rw [List.length_append] at taken
    rw [write, readWithin_writeVariant (by decide)]
    show (readWithin below >>= _) _ = _
    rw [List.append_assoc, bind_of_ok (ihLeft (by omega) _), bind_of_ok (ihRight (by omega) _)]
    rfl
  | @list items counted _ ih =>
    obtain ⟨below, rfl⟩ := exists_level enough
    have taken := length_lt_writeVariant 3 (Codec.count.write items.length ++ writeAll items)
    rw [write] at enough
    rw [List.length_append] at taken
    have each : ∀ item ∈ items, ∀ rest,
        readWithin below (write item ++ rest) = .ok (item, rest) := fun item mem rest =>
      ih item mem (by have := length_le_of_mem mem; omega) rest
    rw [write, readWithin_writeVariant (by decide)]
    show (Codec.count.read >>= _) _ = _
    rw [List.append_assoc, bind_of_ok (lawful_count.reads _ counted _), writeAll_eq,
      bind_of_ok (readMany_write each rest)]
    rfl

/-! ## 3. The bound on the depth -/

theorem sequential_readContent {reader : Reader Tree} (sequential : Sequential reader)
    (index : Nat) : Sequential (readContent reader index) := by
  unfold readContent
  split
  · exact .pure _
  · exact lawful_int64.sequential.bind fun value => .pure _
  · exact sequential.bind fun left => sequential.bind fun right => .pure _
  · exact lawful_count.sequential.bind fun count =>
      (sequential.readMany count).bind fun items => .pure _

theorem sequential_readWithin (depth : Nat) : Sequential (readWithin depth) := by
  induction depth with
  | zero => exact .throw _
  | succ depth ih => exact (sequential_readVariant 4).bind (sequential_readContent ih)

/-- What an alternative holds is read alike by readers that read the trees in it alike. -/
theorem readContent_of_imp {reader other : Reader Tree} (sequential : Sequential reader)
    {index : Nat} {bytes rest : Bytes} {tree : Tree}
    (read : readContent reader index bytes = .ok (tree, rest))
    (alike : ∀ {front tree back}, front.length ≤ bytes.length → rest.length ≤ back.length →
      reader front = .ok (tree, back) → other front = .ok (tree, back)) :
    readContent other index bytes = .ok (tree, rest) := by
  unfold readContent at read ⊢
  split at read
  · exact read
  · exact read
  · obtain ⟨left, mid, readLeft, later⟩ := bind_eq_ok.mp read
    obtain ⟨right, rest', readRight, done⟩ := bind_eq_ok.mp later
    cases done
    have atLeft := sequential.length_le readLeft
    have atRight := sequential.length_le readRight
    rw [bind_of_ok (alike (Nat.le_refl _) atRight readLeft),
      bind_of_ok (alike atLeft (Nat.le_refl _) readRight)]
    rfl
  · obtain ⟨count, mid, readCount, later⟩ := bind_eq_ok.mp read
    obtain ⟨items, rest', readItems, done⟩ := bind_eq_ok.mp later
    cases done
    have atCount := lawful_count.sequential.length_le readCount
    rw [bind_of_ok readCount,
      bind_of_ok (readMany_of_imp sequential readItems fun less => alike (Nat.le_trans less atCount))]
    rfl

/-- **A bound on the depth that covers the bytes taken reads as any other does.** -/
theorem readWithin_of_taken {depth depth' : Nat} {bytes rest : Bytes} {tree : Tree}
    (read : readWithin depth bytes = .ok (tree, rest))
    (enough : bytes.length < depth' + rest.length) :
    readWithin depth' bytes = .ok (tree, rest) := by
  induction depth generalizing depth' bytes rest tree with
  | zero => cases read
  | succ depth ih =>
    have sequential := sequential_readWithin depth
    obtain ⟨index, mid, readIndex, content⟩ := bind_eq_ok.mp read
    have atIndex := length_lt_of_readVariant readIndex
    have atContent := (sequential_readContent sequential index).length_le content
    obtain ⟨below, rfl⟩ : ∃ below, depth' = below + 1 := ⟨depth' - 1, by omega⟩
    -- a level has taken a byte, so the bytes that are left fit the bound that is left
    have again : readContent (readWithin below) index mid = .ok (tree, rest) :=
      readContent_of_imp sequential content fun less more read => ih read (by omega)
    exact (bind_of_ok readIndex).trans again

/-- **Trees have the laws of a codec.** -/
theorem lawful : Lawful codec Countable where
  reads tree countable rest := by
    show readWithin ((write tree ++ rest).length + 1) (write tree ++ rest) = _
    refine readWithin_write countable ?_ rest
    rw [List.length_append]
    omega
  sized := length_write
  sequential := by
    intro bytes tree rest read
    obtain ⟨front, rfl, again⟩ := sequential_readWithin _ read
    refine ⟨front, rfl, fun more => readWithin_of_taken (again more) ?_⟩
    rw [List.length_append]
    omega

end IndexedStore.Tree
