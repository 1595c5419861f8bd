import IndexedStore.Key.Value
import IndexedStore.Payload.Format
/-!
# Counters

The two smallest records: `Counter`, a number, and `CounterState`, a number that can be paused.
-/

namespace IndexedStore

open Payload

/-! ## 1. A number -/

/-- A counter. -/
structure Counter where
  value : UInt64 := 0
  deriving DecidableEq, Repr

namespace Counter

/-- Counters as bytes. -/
def codec : Codec Counter :=
  Codec.uint64.convert Counter.mk Counter.value

/-- The payloads of counters. -/
def format : RecordFormat Counter :=
  .plain codec

/-- The keys that counters can be indexed by. -/
def selector? : String → Option (Counter → KeyValue)
  | "value" => some fun counter => .uint64 counter.value
  | "mod3" => some fun counter => .uint64 (counter.value % 3)
  | _ => none

end Counter

/-! ## 2. A number that can be paused -/

/-- A counter, and whether it is paused. -/
structure CounterState where
  counter : UInt64 := 0
  paused : Bool := false
  deriving DecidableEq, Repr

namespace CounterState

/-- Counter states as bytes: the fields in order. -/
def codec : Codec CounterState :=
  (Codec.uint64.pair Codec.bool).convert
    (fun (counter, paused) => { counter, paused })
    (fun state => (state.counter, state.paused))

/-- The payloads of counter states. -/
def format : RecordFormat CounterState :=
  .plain codec

/-- The keys that counter states can be indexed by. -/
def selector? : String → Option (CounterState → KeyValue)
  | "counter" => some fun state => .uint64 state.counter
  | "paused" => some fun state => .bool state.paused
  | _ => none

end CounterState

end IndexedStore
