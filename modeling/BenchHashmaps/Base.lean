import Mathlib.Data.UInt
import Mathlib.Order.BoundedOrder.Basic
import Mathlib.Order.Defs.LinearOrder

/-!
# Memory and hashing

`base.hpp`: cache-line aligned allocation and the squirrel3 hash. The C++
allocator is a parameter; the size computations in front of it are here,
in `uint64_t` arithmetic.
-/

namespace BenchHashmaps

/-- How an execution can fail to return. Every access outside the object it
indexes is `outOfBounds`; `outOfFuel` only says that the recursion is deeper
than the bound it was run with. -/
inductive Fault
  | outOfBounds
  | divideByZero
  | outOfFuel
  deriving DecidableEq, Repr

/-- `std::aligned_alloc` for objects of type `α`. A block of `size` bytes has
room for as many whole objects as fit; what they hold is not specified. -/
structure Heap (α : Type) where
  CACHE_LINE : UInt64
  sizeof : UInt64
  alloc : UInt64 → UInt64 → Option (List α)
  length_alloc : ∀ {alignment size block}, alloc alignment size = some block →
    block.length = size.toNat / sizeof.toNat

/-- Both the product behind `size` and the rounding can wrap. -/
def Heap.alignedAlloc (heap : Heap α) (alignment size : UInt64) : Option (List α) :=
  let aligned_size := (size + alignment - 1) &&& ~~~(alignment - 1)
  heap.alloc alignment aligned_size

/-- A heap on which every allocation succeeds, filled with one object. -/
def Heap.filled (CACHE_LINE sizeof : UInt64) (x : α) : Heap α where
  CACHE_LINE := CACHE_LINE
  sizeof := sizeof
  alloc _ size := some (List.replicate (size.toNat / sizeof.toNat) x)
  length_alloc := by
    rintro _ _ _ ⟨⟩
    exact List.length_replicate

instance uint64LinearOrder : LinearOrder UInt64 where
  le_refl := UInt64.le_refl
  le_trans _ _ _ := UInt64.le_trans
  le_antisymm _ _ := UInt64.le_antisymm
  le_total := UInt64.le_total
  lt_iff_le_not_ge a b := by
    rw [UInt64.not_le]
    exact ⟨fun h => ⟨UInt64.le_of_lt h, h⟩, fun h => h.2⟩
  toDecidableLE := inferInstance
  toDecidableEq := inferInstance

instance uint64OrderTop : OrderTop UInt64 where
  top := 0xFFFFFFFFFFFFFFFF
  le_top a := UInt64.le_iff_toNat_le.mpr (Nat.le_of_lt_succ a.toNat_lt)

def squirrel3 (x : UInt64) : UInt64 :=
  let BIT_NOISE1 : UInt64 := 0x9E3779B185EBCA87
  let BIT_NOISE2 : UInt64 := 0xC2B2AE3D27D4EB4F
  let BIT_NOISE3 : UInt64 := 0x27D4EB2F165667C5
  let x := x * BIT_NOISE1
  let x := x ^^^ (x >>> 8)
  let x := x + BIT_NOISE2
  let x := x ^^^ (x <<< 8)
  let x := x * BIT_NOISE3
  x ^^^ (x >>> 8)

end BenchHashmaps
