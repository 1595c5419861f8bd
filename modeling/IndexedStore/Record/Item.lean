import IndexedStore.Key.Value
import IndexedStore.Payload.Format
/-!
# Items

A record with a field of every type that records can hold: integers of every width, the bit patterns
of floating-point numbers, a truth value, a character, texts, bytes, an optional text, lists, a
pair, a name and a map.
-/

namespace IndexedStore

open Payload

/-- An item. -/
structure Item where
  n8 : Int8 := 0
  n16 : Int16 := 0
  n32 : Int32 := 0
  n64 : Int64 := 0
  n128 : BitVec 128 := 0
  u8 : UInt8 := 0
  u16 : UInt16 := 0
  u32 : UInt32 := 0
  u64 : UInt64 := 0
  u128 : BitVec 128 := 0
  f32 : BitVec 32 := 0
  f64 : BitVec 64 := 0
  flag : Bool := false
  ch : Char := '\x00'
  text : String := ""
  blob : Bytes := []
  opt : Option String := none
  list : List UInt16 := []
  pair : Int32 × String := (0, "")
  tag : Name := .empty
  nest : List (Option Int64) := []
  map : OrdMap String UInt32 := .empty
  deriving DecidableEq

namespace Item

/-! ## 1. Payloads -/

/-- The first ten fields as bytes. -/
def integers : Codec (Int8 × Int16 × Int32 × Int64 × BitVec 128
    × UInt8 × UInt16 × UInt32 × UInt64 × BitVec 128) :=
  Codec.signedByte.pair <| Codec.int16.pair <| Codec.int32.pair <| Codec.int64.pair <|
  (Codec.signed 128).pair <| Codec.byte.pair <| Codec.uint16.pair <| Codec.uint32.pair <|
  Codec.uint64.pair <| Codec.unsigned 128

/-- The other fields as bytes. -/
def others : Codec (BitVec 32 × BitVec 64 × Bool × Char × String × Bytes × Option String
    × List UInt16 × (Int32 × String) × Name × List (Option Int64) × OrdMap String UInt32) :=
  (Codec.bits 4).pair <| (Codec.bits 8).pair <| Codec.bool.pair <| Codec.char.pair <|
  Codec.text.pair <| Codec.byte.list.pair <| Codec.text.option.pair <| Codec.uint16.list.pair <|
  (Codec.int32.pair Codec.text).pair <| Codec.name.pair <| Codec.int64.option.list.pair <|
  Codec.text.map Codec.uint32

/-- Items as bytes: the fields in order. -/
def codec : Codec Item :=
  (integers.pair others).convert
    (fun ((n8, n16, n32, n64, n128, u8, u16, u32, u64, u128),
        (f32, f64, flag, ch, text, blob, opt, list, pair, tag, nest, map)) =>
      { n8, n16, n32, n64, n128, u8, u16, u32, u64, u128
        f32, f64, flag, ch, text, blob, opt, list, pair, tag, nest, map })
    (fun item =>
      ((item.n8, item.n16, item.n32, item.n64, item.n128,
          item.u8, item.u16, item.u32, item.u64, item.u128),
        (item.f32, item.f64, item.flag, item.ch, item.text, item.blob, item.opt, item.list,
          item.pair, item.tag, item.nest, item.map)))

/-- The payloads of items. -/
def format : RecordFormat Item :=
  .plain codec

/-! ## 2. Keys -/

/-- The keys that items can be indexed by: every field but the map, and six of them together. -/
def selector? : String → Option (Item → KeyValue)
  | "n8" => some fun item => .int8 item.n8
  | "n16" => some fun item => .int16 item.n16
  | "n32" => some fun item => .int32 item.n32
  | "n64" => some fun item => .int64 item.n64
  | "n128" => some fun item => .signed 16 item.n128
  | "u8" => some fun item => .uint8 item.u8
  | "u16" => some fun item => .uint16 item.u16
  | "u32" => some fun item => .uint32 item.u32
  | "u64" => some fun item => .uint64 item.u64
  | "u128" => some fun item => .unsigned 16 item.u128
  | "f32" => some fun item => .float 4 item.f32
  | "f64" => some fun item => .float 8 item.f64
  | "flag" => some fun item => .bool item.flag
  | "ch" => some fun item => .char item.ch
  | "text" => some fun item => .text item.text
  | "blob" => some fun item => .bytes item.blob
  | "opt" => some fun item => .option (item.opt.map .text)
  | "list" => some fun item => .list (item.list.map .uint16)
  | "pair" => some fun item => .tuple [.int32 item.pair.1, .text item.pair.2]
  | "tag" => some fun item => .name item.tag
  | "nest" => some fun item => .list (item.nest.map fun value => .option (value.map .int64))
  | "six" => some fun item =>
    .tuple [.uint8 item.u8, .int16 item.n16, .bool item.flag, .char item.ch, .float 4 item.f32,
      .option (item.opt.map .text)]
  | _ => none

end Item

end IndexedStore
