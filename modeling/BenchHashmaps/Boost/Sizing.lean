import BenchHashmaps.Base
import BenchHashmaps.Boost.Group
import BenchHashmaps.Lib.Rounding

/-!
# The sizes of a table

`pow2_size_policy`, `capacity_for` and the load arithmetic of
`boost_unordered.hpp`. Loads are computed in `float`; a value of that type is
the rational it stands for, rounded to 24 bits after every operation.
-/

namespace BenchHashmaps.Boost

open Lib

/-- How an operation can end without returning: with `std::bad_alloc` or
`std::length_error`, or with undefined behaviour. `conversion` is a `float` too
large for the `std::size_t` it is converted to. -/
inductive Exit
  | badAlloc
  | lengthError
  | conversion
  | fault (fault : Fault)
  deriving DecidableEq, Repr

-- ---------------------------------------------------------------------------
-- `pow2_size_policy`
-- ---------------------------------------------------------------------------

def bitWidth (n : UInt64) : UInt64 := if n = 0 then 0 else UInt64.ofNat (n.toNat.log2 + 1)

def sizeIndex (n : UInt64) : UInt64 := 64 - (if n ≤ 2 then 1 else bitWidth (n - 1))

def groupsSize (sizeIndex : UInt64) : UInt64 := 1 <<< (64 - sizeIndex)

def position (hash sizeIndex : UInt64) : UInt64 := hash >>> sizeIndex

/-- `n / N + 1 == ceil((n + 1) / N)`: one more slot for the sentinel. -/
def sizeIndexFor (n : UInt64) : UInt64 := sizeIndex (n / 15 + 1)

def capacityFor (n : UInt64) : UInt64 := groupsSize (sizeIndexFor n) * 15 - 1

-- ---------------------------------------------------------------------------
-- Loads
-- ---------------------------------------------------------------------------

def binary32 (x : ℚ) : ℚ := roundBits 24 x

/-- `mlf=0.875f`. -/
def mlf : ℚ := 7 / 8

/-- `std::size_t(std::ceil(float(n)/mlf))`. -/
def sizeForLoad (n : UInt64) : Except Exit UInt64 :=
  let x := ⌈binary32 (binary32 n.toNat / mlf)⌉₊
  if x < 2 ^ 64 then .ok (UInt64.ofNat x) else .error .conversion

def initialMaxLoad (capacity : UInt64) : UInt64 :=
  let smallCapacity := 2 * 15 - 1
  if capacity ≤ smallCapacity then capacity
  else UInt64.ofNat ⌊binary32 (mlf * binary32 capacity.toNat)⌋₊

end BenchHashmaps.Boost
