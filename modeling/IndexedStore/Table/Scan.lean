import IndexedStore.Table.Walk
/-!
# Scans

A scan hands out the entries of an index one by one, on demand, up to a key where it stops. It reads
an entry BEFORE its walk moves on, so the entry just handed out may be erased at once; entries that
are erased ahead of the walk are passed over. A scan that has come to its end, or met a fault, stays
ended, whatever is written later.

* `Scan.next` hands out one item, `Scan.drain` all that are left;
* `Scan.readRecord` and `Scan.readKey` are the two things to read.
-/

namespace IndexedStore

/-- A scan: its walk, the key in the store before which it stops, and whether it has ended. -/
structure Scan (ρ : Type) where
  walk : Walk ρ
  stop : Option Bytes
  done : Bool := false

namespace Scan

variable {σ ρ α : Type}

/-- Reads the record of the current entry. -/
def readRecord (backend : Backend σ) (walk : Walk ρ) : Action σ ρ :=
  walk.value backend

/-- Reads the key of the current entry, without the stem of the index. -/
def readKey (backend : Backend σ) (walk : Walk ρ) : Action σ Bytes :=
  walk.keyBehindStem backend

/-- Whether a walk has come to the key where a scan stops. -/
def reached (backend : Backend σ) (stop : Option Bytes) (walk : Walk ρ) : Action σ Bool :=
  match stop with
  | none => return false
  | some key => return (← walk.compareKey backend key) ≠ .lt

/-- Reads the next entry and moves on, or answers that there is none. -/
def step (backend : Backend σ) (read : Walk ρ → Action σ α) (stop : Option Bytes) :
    Motion σ ρ (Option α) := do
  if (← Walk.refresh backend) = .erased then Walk.advance backend
  let walk ← get
  if walk.isEnd then return none
  if ← Motion.ofAction (reached backend stop walk) then return none
  let item ← Motion.ofAction (read walk)
  Walk.advance backend
  return some item

/-- Hands out the next item, or the fault that ends the scan, or nothing once it has ended. -/
def next (backend : Backend σ) (read : Walk ρ → Action σ α) (scan : Scan ρ) :
    StateM σ (Option (Except Fault α) × Scan ρ) := do
  if scan.done then return (none, scan)
  let (item, walk) ← (step backend read scan.stop).run scan.walk
  match item with
  | .ok (some item) => return (some (.ok item), { scan with walk })
  | .ok none => return (none, { scan with walk, done := true })
  | .error fault => return (some (.error fault), { scan with walk, done := true })

/-- Hands out what is left, at most `bound` items. -/
def drain (backend : Backend σ) (read : Walk ρ → Action σ α) :
    (bound : Nat) → Scan ρ → StateM σ (List (Except Fault α) × Scan ρ)
  | 0, scan => return ([], scan)
  | bound + 1, scan => do
    match ← scan.next backend read with
    | (none, scan) => return ([], scan)
    | (some item, scan) =>
      let (items, scan) ← drain backend read bound scan
      return (item :: items, scan)

/-- Hands out all that is left and gives the cursor back. The items are one for each entry, and
    perhaps a fault. -/
def all (backend : Backend σ) (read : Walk ρ → Action σ α) (scan : Scan ρ) :
    StateM σ (List (Except Fault α)) := do
  let entries := backend.population scan.walk.view.table.scope (← get)
  let (items, scan) ← drain backend read (entries + 1) scan
  scan.walk.release backend
  return items

end Scan

end IndexedStore
