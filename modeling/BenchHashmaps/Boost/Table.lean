import BenchHashmaps.Boost.Sizing
import BenchHashmaps.Lib.Bits
import BenchHashmaps.Lib.Runs

/-!
# The flat map of the library

`table_core`, `table_arrays` and `table` of `boost_unordered.hpp`, as far as
`unordered_flat_map` needs them: construction, `find`, `emplace`, `erase`,
`clear`, `rehash` and `reserve`. Moving, copying and comparing elements and
hashing keys do not throw, so only the allocator does.

The groups and the elements are the two arrays of the source; an element slot
is `none` while no element is constructed in it. A member function that throws
leaves a table behind, so its exits carry the table.
-/

namespace BenchHashmaps.Boost

open Lib

structure Policy (K V : Type) where
  hashFor : K → UInt64
  sizeofValue : UInt64
  sizeofValue_pos : 0 < sizeofValue
  sizeofValue_lt : sizeofValue < 2 ^ 32

def pairPolicy (hashFor : UInt64 → UInt64) : Policy UInt64 UInt64 where
  hashFor := hashFor
  sizeofValue := 16
  sizeofValue_pos := by decide
  sizeofValue_lt := by decide

/-- Which calls of `allocate` return, for objects of some size. No block is as
large as a quarter of the addresses. -/
structure Allocator (sizeofValue : UInt64) where
  allocates : UInt64 → Bool
  addressable : ∀ {n}, allocates n → n.toNat * sizeofValue.toNat < 2 ^ 62

def Allocator.ample (sizeofValue : UInt64) : Allocator sizeofValue where
  allocates n := n.toNat * sizeofValue.toNat < 2 ^ 62
  addressable := of_decide_eq_true

def Allocator.exhausted (sizeofValue : UInt64) : Allocator sizeofValue where
  allocates _ := false
  addressable := nofun

-- ---------------------------------------------------------------------------
-- `pow2_quadratic_prober`
-- ---------------------------------------------------------------------------

structure Prober where
  pos : UInt64
  step : UInt64 := 0
  deriving DecidableEq, Repr

/-- `next`; the flag is false when the whole array has been traversed. -/
def Prober.next (pb : Prober) (mask : UInt64) : Prober × Bool :=
  let step := pb.step + 1
  ({ pos := (pb.pos + step) &&& mask, step := step }, step ≤ mask)

-- ---------------------------------------------------------------------------
-- `table_arrays`
-- ---------------------------------------------------------------------------

structure Arrays (γ K V : Type) where
  groupsSizeIndex : UInt64
  groupsSizeMask : UInt64
  groups : List γ
  /-- `none` is `nullptr`. -/
  elements : Option (List (Option (K × V)))

variable {γ K V : Type}

namespace Arrays

/-- Combined space for elements and groups, in elements. The groups are padded
to their alignment. -/
def bufferSize (sizeofValue groupsSize : UInt64) : UInt64 :=
  let bufferBytes := sizeofValue * (groupsSize * 15 - 1) + 16 * (groupsSize + 1) - 1
  (bufferBytes + sizeofValue - 1) / sizeofValue

variable [Group15 γ]

/-- `table_arrays::new_`. Without a capacity the groups are the static
`dummy_groups`; otherwise they lie behind the elements in one block, which the
products in `bufferSize` can make too small. -/
def new (P : Policy K V) (al : Allocator P.sizeofValue) (n : UInt64) :
    Except Exit (Arrays γ K V) :=
  let groupsSizeIndex := sizeIndexFor n
  let size := groupsSize groupsSizeIndex
  if n = 0 then
    .ok { groupsSizeIndex, groupsSizeMask := size - 1,
          groups := List.replicate 2 dummyGroup, elements := none }
  else if !al.allocates (bufferSize P.sizeofValue size) then .error .badAlloc
  else if (bufferSize P.sizeofValue size).toNat * P.sizeofValue.toNat <
      P.sizeofValue.toNat * (size.toNat * 15 - 1) + 16 * size.toNat then
    .error (.fault .outOfBounds)
  else
    .ok { groupsSizeIndex, groupsSizeMask := size - 1,
          groups := (List.replicate size.toNat initialized).modify (size.toNat - 1) setSentinel,
          elements := some (List.replicate (size.toNat * 15 - 1) none) }

def capacity (a : Arrays γ K V) : UInt64 :=
  if a.elements.isSome then (a.groupsSizeMask + 1) * 15 - 1 else 0

def positionFor (a : Arrays γ K V) (hash : UInt64) : UInt64 := position hash a.groupsSizeIndex

/-- `arrays.groups()[pos]`. -/
def group (a : Arrays γ K V) (pos : Nat) : Except Exit γ :=
  match a.groups[pos]? with
  | some pg => .ok pg
  | none => .error (.fault .outOfBounds)

/-- `arrays.elements()[pos*N+n]`, for an element that is there. -/
def element (a : Arrays γ K V) (pos n : Nat) : Except Exit (K × V) :=
  match a.elements with
  | none => .error (.fault .outOfBounds)
  | some elements =>
    match elements[pos * 15 + n]? with
    | some (some e) => .ok e
    | _ => .error (.fault .outOfBounds)

/-- `construct_element` and `destroy_element` at `elements()+pos*N+n`. -/
def setElement (a : Arrays γ K V) (pos n : Nat) (e : Option (K × V)) : Except Exit (Arrays γ K V) :=
  match a.elements with
  | none => .error (.fault .outOfBounds)
  | some elements =>
    if pos * 15 + n < elements.length then
      .ok { a with elements := some (elements.set (pos * 15 + n) e) }
    else .error (.fault .outOfBounds)

def setGroup (a : Arrays γ K V) (pos : Nat) (pg : γ) : Arrays γ K V :=
  { a with groups := a.groups.set pos pg }

variable [DecidableEq K]

def findInGroup (a : Arrays γ K V) (x : K) (pos : Nat) : List Nat → Except Exit (Option Nat)
  | [] => .ok none
  | n :: ns => do
    let e ← a.element pos n
    if x = e.1 then .ok (some n) else a.findInGroup x pos ns

def findFrom (a : Arrays γ K V) (x : K) (hash : UInt64) :
    Nat → Prober → Except Exit (Option (Nat × Nat))
  | 0, _ => .error (.fault .outOfFuel)
  | fuel + 1, pb => do
    let pos := pb.pos.toNat
    let pg ← a.group pos
    match ← a.findInGroup x pos (setBits (matchHash pg hash).toNat) with
    | some n => .ok (some (pos, n))
    | none =>
      if isNotOverflowed pg hash then .ok none
      else
        let (pb, more) := pb.next a.groupsSizeMask
        if more then a.findFrom x hash fuel pb else .ok none

def nosizeUncheckedEmplaceAt (hash : UInt64) (e : K × V) :
    Nat → Arrays γ K V → Prober → Except Exit (Arrays γ K V × Nat × Nat)
  | 0, _, _ => .error (.fault .outOfFuel)
  | fuel + 1, a, pb => do
    let pos := pb.pos.toNat
    let pg ← a.group pos
    let mask := matchAvailable pg
    if mask ≠ 0 then
      let n := countrZero mask.toNat
      let a ← a.setElement pos n (some e)
      .ok (a.setGroup pos (Group15.set pg n hash), pos, n)
    else
      nosizeUncheckedEmplaceAt hash e fuel (a.setGroup pos (markOverflow pg hash))
        (pb.next a.groupsSizeMask).1

def matchReallyOccupied (a : Arrays γ K V) (pg : γ) (pos : Nat) : UInt32 :=
  let last : UInt32 := if pos = a.groupsSizeMask.toNat then 1 else 0
  matchOccupied pg &&& ~~~(last <<< 14)

/-- The slots `for_all_elements` visits, in its order. -/
def elementSlots (a : Arrays γ K V) : List (Nat × Nat) :=
  if a.elements.isSome then
    a.groups.zipIdx.flatMap fun (pg, pos) =>
      (setBits (a.matchReallyOccupied pg pos).toNat).map fun n => (pos, n)
  else []

def transferElement (P : Policy K V) (fuel : Nat) (a : Arrays γ K V) (newArrays : Arrays γ K V)
    (slot : Nat × Nat) : Except Exit (Arrays γ K V) := do
  let e ← a.element slot.1 slot.2
  let hash := P.hashFor e.1
  let (newArrays, _) ←
    nosizeUncheckedEmplaceAt hash e fuel newArrays ⟨newArrays.positionFor hash, 0⟩
  .ok newArrays

/-- What `clear` does with the arrays: it destroys all elements and wipes all
groups. The slots of a group depend on the group alone, so it makes no
difference that the source wipes each group before it goes on. -/
def clear (a : Arrays γ K V) : Except Exit (Arrays γ K V) := do
  let a' ← a.elementSlots.foldlM (fun a' s => a'.setElement s.1 s.2 none) a
  .ok { a' with
        groups := (a'.groups.map fun _ => initialized).modify a.groupsSizeMask.toNat setSentinel }

end Arrays

-- ---------------------------------------------------------------------------
-- `table`
-- ---------------------------------------------------------------------------

structure Table (γ K V : Type) where
  arrays : Arrays γ K V
  /-- `size_ctrl`. -/
  ml : UInt64
  size : UInt64

namespace Table

variable [Group15 γ]

def capacity (t : Table γ K V) : UInt64 := t.arrays.capacity

def empty : Table γ K V where
  arrays := { groupsSizeIndex := sizeIndexFor 0, groupsSizeMask := groupsSize (sizeIndexFor 0) - 1,
              groups := List.replicate 2 dummyGroup, elements := none }
  ml := initialMaxLoad 0
  size := 0

/-- How a member function ends. An exit comes with the table as it is then. -/
abbrev Outcome (γ K V α : Type) := Except (Exit × Table γ K V) α

/-- A part of a member function that does not write the table. -/
def leaving (t : Table γ K V) (x : Except Exit α) : Outcome γ K V α :=
  x.mapError fun exit => (exit, t)

omit [Group15 γ] in
@[simp] theorem leaving_ok (t : Table γ K V) (a : α) : t.leaving (.ok a) = .ok a := rfl

omit [Group15 γ] in
@[simp] theorem leaving_error (t : Table γ K V) (exit : Exit) :
    (t.leaving (.error exit) : Outcome γ K V α) = .error (exit, t) := rfl

variable [DecidableEq K] (P : Policy K V) (al : Allocator P.sizeofValue) (fuel : Nat)

def find (t : Table γ K V) (x : K) : Except Exit (Option (Nat × Nat)) :=
  let hash := P.hashFor x
  t.arrays.findFrom x hash fuel ⟨t.arrays.positionFor hash, 0⟩

/-- `find(x)->second`, nothing where `find` returns `end()`. -/
def value (t : Table γ K V) (x : K) : Except Exit (Option V) := do
  match ← t.find P fuel x with
  | some (pos, n) => do
    let e ← t.arrays.element pos n
    .ok (some e.2)
  | none => .ok none

def uncheckedRehash (t : Table γ K V) (newArrays : Arrays γ K V) :
    Outcome γ K V (Table γ K V) := do
  let newArrays ← t.leaving <|
    t.arrays.elementSlots.foldlM (t.arrays.transferElement P fuel) newArrays
  .ok { t with arrays := newArrays, ml := initialMaxLoad newArrays.capacity }

def newArraysForGrowth (t : Table γ K V) : Except Exit (Arrays γ K V) := do
  let n ← sizeForLoad (t.size + t.size / 61 + 1)
  Arrays.new P al n

/-- Insertion comes before the rehash. -/
def uncheckedEmplaceWithRehash (t : Table γ K V) (hash : UInt64) (e : K × V) :
    Outcome γ K V (Table γ K V × Nat × Nat) := do
  let newArrays ← t.leaving (t.newArraysForGrowth P al)
  let (newArrays, it) ← t.leaving <|
    Arrays.nosizeUncheckedEmplaceAt hash e fuel newArrays ⟨newArrays.positionFor hash, 0⟩
  let t ← t.uncheckedRehash P fuel newArrays
  .ok ({ t with size := t.size + 1 }, it)

def emplace (t : Table γ K V) (e : K × V) :
    Outcome γ K V (Table γ K V × (Nat × Nat) × Bool) := do
  let hash := P.hashFor e.1
  match ← t.leaving (t.find P fuel e.1) with
  | some loc => .ok (t, loc, false)
  | none =>
    if t.size < t.ml then
      let (arrays, loc) ← t.leaving <|
        Arrays.nosizeUncheckedEmplaceAt hash e fuel t.arrays ⟨t.arrays.positionFor hash, 0⟩
      .ok ({ t with arrays, size := t.size + 1 }, loc, true)
    else
      let (t, loc) ← t.uncheckedEmplaceWithRehash P al fuel hash e
      .ok (t, loc, true)

/-- `recover_slot`. A slot that may have caused overflow is not given back to
the maximum load. -/
def recoverSlot (t : Table γ K V) (pos n : Nat) : Outcome γ K V (Table γ K V) := do
  let pg ← t.leaving (t.arrays.group pos)
  .ok { arrays := t.arrays.setGroup pos (Group15.reset pg n),
        ml := t.ml - (maybeCausedOverflow pg n).toUInt64,
        size := t.size - 1 }

def erase (t : Table γ K V) (x : K) : Outcome γ K V (Table γ K V × Nat) := do
  match ← t.leaving (t.find P fuel x) with
  | some (pos, n) =>
    let arrays ← t.leaving (t.arrays.setElement pos n none)
    let t ← { t with arrays }.recoverSlot pos n
    .ok (t, 1)
  | none => .ok (t, 0)

def clear (t : Table γ K V) : Outcome γ K V (Table γ K V) := do
  if t.arrays.elements.isSome then
    let arrays ← t.leaving t.arrays.clear
    .ok { arrays, ml := initialMaxLoad arrays.capacity, size := 0 }
  else .ok t

def rehash (t : Table γ K V) (n : UInt64) : Outcome γ K V (Table γ K V) := do
  let m ← t.leaving (sizeForLoad t.size)
  let n := if n < m then m else n
  let n := if n ≠ 0 then capacityFor n else n
  if n ≠ t.capacity then
    let newArrays ← t.leaving (Arrays.new P al n)
    t.uncheckedRehash P fuel newArrays
  else .ok t

def reserve (t : Table γ K V) (n : UInt64) : Outcome γ K V (Table γ K V) := do
  let n ← t.leaving (sizeForLoad n)
  t.rehash P al fuel n

end Table

end BenchHashmaps.Boost
