import IndexedStore.Key.Value
import IndexedStore.Payload.Format
/-!
# Trees

A record that holds records of its own type: trees with numbers at their leaves, branching in two or
in any count of ways.
-/

namespace IndexedStore

open Payload

/-- A tree. -/
inductive Tree where
  | empty
  | leaf (value : Int64)
  | node (left right : Tree)
  | list (items : List Tree)

namespace Tree

/-! ## 1. Payloads -/

mutual

/-- A tree as bytes: the number of the alternative, then its parts. -/
def write : Tree → Bytes
  | .empty => Codec.writeVariant 0 []
  | .leaf value => Codec.writeVariant 1 (Codec.int64.write value)
  | .node left right => Codec.writeVariant 2 (write left ++ write right)
  | .list items => Codec.writeVariant 3 (Codec.count.write items.length ++ writeAll items)

/-- Trees as bytes, one behind the other. -/
def writeAll : List Tree → Bytes
  | [] => []
  | tree :: rest => write tree ++ writeAll rest

end

mutual

/-- The count of bytes that a tree takes. -/
def size : Tree → Nat
  | .empty => Codec.variantSize 0 0
  | .leaf value => Codec.variantSize 1 (Codec.int64.size value)
  | .node left right => Codec.variantSize 2 (size left + size right)
  | .list items => Codec.variantSize 3 (Codec.count.size items.length + sizeAll items)

/-- The count of bytes that trees take one behind the other. -/
def sizeAll : List Tree → Nat
  | [] => 0
  | tree :: rest => size tree + sizeAll rest

end

/-- Reads what the alternative `index` holds, with a reader for the trees in it. -/
def readContent (reader : Reader Tree) : (index : Nat) → Reader Tree
  | 0 => return .empty
  | 1 => return .leaf (← Codec.int64.read)
  | 2 => do
    let left ← reader
    let right ← reader
    return .node left right
  | _ => return .list (← readMany reader (← Codec.count.read))

/-- Reads a tree that is at most `depth` levels deep. -/
def readWithin : (depth : Nat) → Reader Tree
  | 0 => throw .endOfInput
  | depth + 1 => do readContent (readWithin depth) (← Codec.readVariant 4)

/-- Trees as bytes. Every level takes a byte, so no tree is deeper than the count of bytes. -/
def codec : Codec Tree where
  write := write
  size := size
  read bytes := readWithin (bytes.length + 1) bytes

/-- The payloads of trees. -/
def format : RecordFormat Tree :=
  .variant codec

/-! ## 2. Keys -/

mutual

/-- The sum of the leaves, in 64 bits. -/
def sum : Tree → Int64
  | .empty => 0
  | .leaf value => value
  | .node left right => sum left + sum right
  | .list items => sumAll items

/-- The sum of the leaves of some trees. -/
def sumAll : List Tree → Int64
  | [] => 0
  | tree :: rest => sum tree + sumAll rest

end

mutual

/-- The count of the leaves. -/
def leaves : Tree → Nat
  | .empty => 0
  | .leaf _ => 1
  | .node left right => leaves left + leaves right
  | .list items => leavesAll items

/-- The count of the leaves of some trees. -/
def leavesAll : List Tree → Nat
  | [] => 0
  | tree :: rest => leaves tree + leavesAll rest

end

/-- The keys that trees can be indexed by. -/
def selector? : String → Option (Tree → KeyValue)
  | "sum" => some fun tree => .int64 tree.sum
  | "leaves" => some fun tree => .uint32 (UInt32.ofNat tree.leaves)
  | _ => none

end Tree

end IndexedStore
