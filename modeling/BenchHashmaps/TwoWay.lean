import BenchHashmaps.Base
import Mathlib.Order.BoundedOrder.Basic

/-!
# The two-way table

`TwoWay.hpp`. A table is an array of buckets; a bucket is a fixed array of
keys beside one of values, and `EMPTY`, the greatest key, marks a free cell.
Every read and write is checked, so an access the source makes outside a
bucket or outside the table is a fault here and not a value.

`insert` and `grow` call each other without a bound. They carry fuel, the
depth of that recursion; a call returns when some fuel is enough.
-/

namespace BenchHashmaps

structure TableTrait (Key Value : Type) where
  hash : Key → UInt64

structure Slot (Key Value : Type) (BUCKET : Nat) where
  keys : Vector Key BUCKET
  values : Vector Value BUCKET
  deriving DecidableEq, Repr

structure TwoWay (Key Value : Type) (BUCKET : Nat) where
  data : List (Slot Key Value BUCKET)
  capacity : UInt64
  size_ : UInt64
  deriving DecidableEq, Repr

/-- `TwoWay<TableTrait, BUCKET>` on one platform. A slot holds `BUCKET` keys
and `BUCKET` values of at least one byte each. -/
structure Target (Key Value : Type) (BUCKET : Nat) extends TableTrait Key Value where
  heap : Heap (Slot Key Value BUCKET)
  bucket_pos : 0 < BUCKET
  two_mul_bucket_le : 2 * BUCKET ≤ heap.sizeof.toNat

def Target.withTrait {Key Value : Type} {BUCKET : Nat} (p : Target Key Value BUCKET)
    (trait : TableTrait Key Value) : Target Key Value BUCKET :=
  { p with toTableTrait := trait }

variable {Key Value : Type} [LinearOrder Key] [OrderTop Key] {BUCKET : Nat} {σ : Type}

/-- `std::numeric_limits<Key>::max()`. -/
abbrev EMPTY : Key := ⊤

def index1 (hash capacity : UInt64) : Nat := (hash &&& (capacity - 1)).toNat

def index2 (hash capacity : UInt64) : Nat := ((hash >>> 32) &&& (capacity - 1)).toNat

-- ---------------------------------------------------------------------------
-- Slots
-- ---------------------------------------------------------------------------

namespace Slot

/-- `while (keys[n] < EMPTY && ++n < BUCKET);` -/
def scan (slot : Slot Key Value BUCKET) (n : Nat) : Nat :=
  if h : n < BUCKET then
    if slot.keys[n] < EMPTY then slot.scan (n + 1) else n
  else n
termination_by BUCKET - n

def put (slot : Slot Key Value BUCKET) (n : Nat) (key : Key) (value : Value) :
    Except Fault (Slot Key Value BUCKET) :=
  if h : n < BUCKET then
    .ok { keys := slot.keys.set n key, values := slot.values.set n value }
  else .error .outOfBounds

/-- `for (j = i; j < BUCKET - 1; j++)` of `erase`, on both arrays. -/
def shift (slot : Slot Key Value BUCKET) (j : Nat) : Slot Key Value BUCKET :=
  if h : j < BUCKET - 1 then
    Slot.shift
      { keys := slot.keys.set j slot.keys[j + 1]
        values := slot.values.set j slot.values[j + 1] } (j + 1)
  else slot
termination_by BUCKET - 1 - j

/-- Only the key of the last cell is blanked; its value stays. -/
def remove (slot : Slot Key Value BUCKET) (i : Nat) : Slot Key Value BUCKET :=
  let slot := slot.shift i
  { slot with keys := slot.keys.setIfInBounds (BUCKET - 1) EMPTY }

/-- `for (j = 0; j < BUCKET && keys[j] != EMPTY; j++)` with body `f`. -/
def forEntries (f : σ → Key → Value → Except Fault σ) (slot : Slot Key Value BUCKET) (j : Nat)
    (acc : σ) : Except Fault σ :=
  if h : j < BUCKET then
    if slot.keys[j] ≠ EMPTY then do
      let acc ← f acc slot.keys[j] slot.values[j]
      slot.forEntries f (j + 1) acc
    else .ok acc
  else .ok acc
termination_by BUCKET - j

/-- The common loop of `find` and `find_indexed`, which has no bound of its
own: past the last cell it reads outside `keys`. -/
def findLoop (slot1 slot2 : Slot Key Value BUCKET) (key : Key) (i : Nat) (steps : UInt64) :
    Except Fault (Value × UInt64) :=
  if h : i < BUCKET then
    if slot1.keys[i] = key then .ok (slot1.values[i], steps)
    else
      let steps := steps + 1
      if slot2.keys[i] = key then .ok (slot2.values[i], steps)
      else
        let steps := steps + 1
        findLoop slot1 slot2 key (i + 1) steps
  else .error .outOfBounds
termination_by BUCKET - i

def containsLoop (slot1 slot2 : Slot Key Value BUCKET) (key : Key) (i : Nat) (steps : UInt64) :
    Bool × UInt64 :=
  if h : i < BUCKET then
    if slot1.keys[i] ≠ EMPTY ∨ slot2.keys[i] ≠ EMPTY then
      if slot1.keys[i] = key then (true, steps)
      else
        let steps := steps + 1
        if slot2.keys[i] = key then (true, steps)
        else
          let steps := steps + 1
          containsLoop slot1 slot2 key (i + 1) steps
    else (false, steps)
  else (false, steps)
termination_by BUCKET - i

end Slot

-- ---------------------------------------------------------------------------
-- Buffers
-- ---------------------------------------------------------------------------

def fillEmpty : List (Slot Key Value BUCKET) → Nat → Except Fault (List (Slot Key Value BUCKET))
  | slots, 0 => .ok slots
  | [], _ + 1 => .error .outOfBounds
  | slot :: slots, count + 1 => do
    let slots ← fillEmpty slots count
    pure ({ slot with keys := Vector.replicate BUCKET EMPTY } :: slots)

/-- The `data = __aligned_alloc(..); fill_empty(data, capacity)` of the
constructor and of `grow`. A null pointer has no slot to write. -/
def allocate (p : Target Key Value BUCKET) (capacity : UInt64) :
    Except Fault (List (Slot Key Value BUCKET)) :=
  let block := p.heap.alignedAlloc p.heap.CACHE_LINE (p.heap.sizeof * capacity)
  fillEmpty ((block.getD []).take capacity.toNat) capacity.toNat

/-- The loop of `grow` and `sum_all_values` over the first `count` slots. -/
def forSlots (f : σ → Key → Value → Except Fault σ) :
    List (Slot Key Value BUCKET) → Nat → σ → Except Fault σ
  | _, 0, acc => .ok acc
  | [], _ + 1, _ => .error .outOfBounds
  | slot :: slots, count + 1, acc => do
    let acc ← slot.forEntries f 0 acc
    forSlots f slots count acc

-- ---------------------------------------------------------------------------
-- The table
-- ---------------------------------------------------------------------------

namespace TwoWay

def new (p : Target Key Value BUCKET) : Except Fault (TwoWay Key Value BUCKET) := do
  let data ← allocate p 8
  pure { data, capacity := 8, size_ := 0 }

def slotAt (t : TwoWay Key Value BUCKET) (index : Nat) : Except Fault (Slot Key Value BUCKET) :=
  match t.data[index]? with
  | some slot => .ok slot
  | none => .error .outOfBounds

def store (t : TwoWay Key Value BUCKET) (index : Nat) (slot : Slot Key Value BUCKET) (n : Nat)
    (key : Key) (value : Value) : Except Fault (TwoWay Key Value BUCKET) := do
  let slot ← slot.put n key value
  pure { t with data := t.data.set index slot, size_ := t.size_ + 1 }

/-- `grow`, with the `insert` it calls as an argument. The old buffer is a
local of this call: what a nested grow replaces is the table being filled. -/
def growWith (p : Target Key Value BUCKET)
    (ins : TwoWay Key Value BUCKET → Key → Value → Except Fault (TwoWay Key Value BUCKET))
    (t : TwoWay Key Value BUCKET) : Except Fault (TwoWay Key Value BUCKET) := do
  let old_capacity := t.capacity
  let old_data := t.data
  let capacity := t.capacity * 2
  let data ← allocate p capacity
  forSlots ins old_data old_capacity.toNat { data, capacity, size_ := 0 }

def insert (p : Target Key Value BUCKET) :
    Nat → TwoWay Key Value BUCKET → Key → Value → Except Fault (TwoWay Key Value BUCKET)
  | 0, _, _, _ => .error .outOfFuel
  | fuel + 1, t, key, value => do
    let hash := p.hash key
    let slot1 ← t.slotAt (index1 hash t.capacity)
    let slot2 ← t.slotAt (index2 hash t.capacity)
    let n1 := slot1.scan 0
    let n2 := slot2.scan 0
    if n1 = BUCKET ∧ n2 = BUCKET then
      let t ← growWith p (insert p fuel) t
      insert p fuel t key value
    else if n1 ≤ n2 then
      t.store (index1 hash t.capacity) slot1 n1 key value
    else
      t.store (index2 hash t.capacity) slot2 n2 key value

def grow (p : Target Key Value BUCKET) (fuel : Nat) (t : TwoWay Key Value BUCKET) :
    Except Fault (TwoWay Key Value BUCKET) :=
  growWith p (insert p fuel) t

def findIndexed (t : TwoWay Key Value BUCKET) (key : Key) (hash steps : UInt64) :
    Except Fault (Value × UInt64) := do
  let slot1 ← t.slotAt (index1 hash t.capacity)
  let slot2 ← t.slotAt (index2 hash t.capacity)
  Slot.findLoop slot1 slot2 key 0 steps

def find (p : Target Key Value BUCKET) (t : TwoWay Key Value BUCKET) (key : Key)
    (steps : UInt64) : Except Fault (Value × UInt64) :=
  t.findIndexed key (p.hash key) steps

def contains (p : Target Key Value BUCKET) (t : TwoWay Key Value BUCKET) (key : Key)
    (steps : UInt64) : Except Fault (Bool × UInt64) := do
  let hash := p.hash key
  let slot1 ← t.slotAt (index1 hash t.capacity)
  let slot2 ← t.slotAt (index2 hash t.capacity)
  pure (Slot.containsLoop slot1 slot2 key 0 steps)

def discard (t : TwoWay Key Value BUCKET) (index : Nat) (slot : Slot Key Value BUCKET) (i : Nat) :
    TwoWay Key Value BUCKET :=
  { t with data := t.data.set index (slot.remove i), size_ := t.size_ - 1 }

def eraseLoop (t : TwoWay Key Value BUCKET) (hash : UInt64) (slot1 slot2 : Slot Key Value BUCKET)
    (key : Key) (i : Nat) : Except Fault (TwoWay Key Value BUCKET) :=
  if h : i < BUCKET then
    if slot1.keys[i] = key then .ok (t.discard (index1 hash t.capacity) slot1 i)
    else if slot2.keys[i] = key then .ok (t.discard (index2 hash t.capacity) slot2 i)
    else t.eraseLoop hash slot1 slot2 key (i + 1)
  else .error .outOfBounds
termination_by BUCKET - i

def erase (p : Target Key Value BUCKET) (t : TwoWay Key Value BUCKET) (key : Key) :
    Except Fault (TwoWay Key Value BUCKET) := do
  let hash := p.hash key
  let slot1 ← t.slotAt (index1 hash t.capacity)
  let slot2 ← t.slotAt (index2 hash t.capacity)
  t.eraseLoop hash slot1 slot2 key 0

def clear (t : TwoWay Key Value BUCKET) : Except Fault (TwoWay Key Value BUCKET) := do
  let data ← fillEmpty t.data t.capacity.toNat
  pure { t with data, size_ := 0 }

def indexFor (p : Target Key Value BUCKET) (_ : TwoWay Key Value BUCKET) (key : Key) : UInt64 :=
  p.hash key

def size (t : TwoWay Key Value BUCKET) : UInt64 := t.size_

def sumAllValues [AddCommMonoid Value] (t : TwoWay Key Value BUCKET) : Except Fault Value :=
  forSlots (fun sum _ value => .ok (sum + value)) t.data t.capacity.toNat 0

end TwoWay

-- ---------------------------------------------------------------------------
-- The instantiation of the benchmark
-- ---------------------------------------------------------------------------

def U64ToU64TableTrait : TableTrait UInt64 UInt64 where
  hash := squirrel3

def U64ToU64TableTrait.target (heap : Heap (Slot UInt64 UInt64 4))
    (h : 2 * 4 ≤ heap.sizeof.toNat) : Target UInt64 UInt64 4 where
  toTableTrait := U64ToU64TableTrait
  heap := heap
  bucket_pos := by decide
  two_mul_bucket_le := h

def u64Target : Target UInt64 UInt64 4 :=
  U64ToU64TableTrait.target (.filled 64 64 { keys := .replicate 4 0, values := .replicate 4 0 })
    (by decide)

end BenchHashmaps
