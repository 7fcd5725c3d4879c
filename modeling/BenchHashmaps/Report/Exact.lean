import BenchHashmaps.Report

/-!
# When a cell is exact

What `format_cell` is to print, in natural numbers, and the inputs on which it
does. Three steps can lose information: the 128-bit product of a scaling, the
cut of its quotient to 64 bits, and the 64-bit product by 100 of a hit rate.
Each is exact only within its range.
-/

namespace BenchHashmaps

-- ---------------------------------------------------------------------------
-- Scaling
-- ---------------------------------------------------------------------------

structure Sample where
  count : UInt64
  time_enabled : UInt64
  time_running : UInt64

namespace Sample

def scale (s : Sample) : Option UInt64 := scaleCounter s.count s.time_enabled s.time_running

/-- `floor(count * time_enabled / time_running)`, or the count itself where
nothing is to be scaled. -/
def exact (s : Sample) : Nat :=
  if s.time_enabled = 0 ∨ s.time_running = 0 ∨ s.time_enabled = s.time_running then s.count.toNat
  else s.count.toNat * s.time_enabled.toNat / s.time_running.toNat

def Exact (s : Sample) : Prop := ∃ n, s.scale = some n ∧ n.toNat = s.exact

/-- Nothing is to be scaled, or the product is a signed 128-bit number and the
quotient an unsigned 64-bit one. -/
def InRange (s : Sample) : Prop :=
  s.time_enabled = 0 ∨ s.time_running = 0 ∨ s.time_enabled = s.time_running ∨
    (s.count.toNat * s.time_enabled.toNat < 2 ^ 127 ∧
      s.count.toNat * s.time_enabled.toNat / s.time_running.toNat < 2 ^ 64)

theorem toInt128_nat (n : Nat) :
    toInt128 (n : Int) = if n < 2 ^ 127 then some (n : Int) else none := by
  unfold toInt128
  by_cases h : n < 2 ^ 127
  · rw [if_pos h, if_pos (by omega)]
  · rw [if_neg h, if_neg (by omega)]

theorem toNat_ofInt_nat (n : Nat) : (UInt64.ofInt (n : Int)).toNat = n % 2 ^ 64 := by
  have hcast : ((n : Int) % 2 ^ 64).toNat = n % 2 ^ 64 := by omega
  rw [UInt64.ofInt, hcast, UInt64.toNat_ofNat']
  exact Nat.mod_mod n (2 ^ 64)

variable {s : Sample}

theorem scale_eq (he : s.time_enabled ≠ 0) (hr : s.time_running ≠ 0)
    (hne : s.time_enabled ≠ s.time_running) :
    s.scale = if s.count.toNat * s.time_enabled.toNat < 2 ^ 127 then
      some (.ofInt ((s.count.toNat * s.time_enabled.toNat / s.time_running.toNat : Nat) : Int))
    else none := by
  rw [scale, scaleCounter, if_neg (not_or.mpr ⟨he, hr⟩), if_neg hne, ← Nat.cast_mul, toInt128_nat]
  split
  next => exact congrArg some (congrArg UInt64.ofInt (Int.ofNat_tdiv _ _).symm)
  next => rfl

theorem exact_iff (s : Sample) : s.Exact ↔ s.InRange := by
  by_cases hs : s.time_enabled = 0 ∨ s.time_running = 0 ∨ s.time_enabled = s.time_running
  · have hscale : s.scale = some s.count := by
      rw [scale, scaleCounter]
      split
      next => rfl
      next h => rw [if_pos ((or_assoc.mpr hs).resolve_left h)]
    have hrange : s.InRange := by
      rcases hs with h | h | h
      · exact .inl h
      · exact .inr (.inl h)
      · exact .inr (.inr (.inl h))
    exact iff_of_true ⟨s.count, hscale, (if_pos hs).symm⟩ hrange
  · rw [Exact, exact, if_neg hs, InRange, ← or_assoc, ← or_assoc, or_assoc (a := _ = _),
      or_iff_right hs]
    rw [not_or, not_or] at hs
    rw [scale_eq hs.1 hs.2.1 hs.2.2]
    split
    next h =>
      constructor
      · rintro ⟨n, hn, hexact⟩
        cases hn
        rw [toNat_ofInt_nat] at hexact
        exact ⟨h, hexact ▸ Nat.mod_lt _ (Nat.two_pow_pos 64)⟩
      · rintro ⟨-, hlt⟩
        exact ⟨_, rfl, by rw [toNat_ofInt_nat, Nat.mod_eq_of_lt hlt]⟩
    next h => exact iff_of_false (fun ⟨n, hn, _⟩ => nomatch hn) fun hr => h hr.1

theorem exact_le {m : UInt64} (h : m ≤ s.count) : { s with count := m }.exact ≤ s.exact := by
  have hnat := UInt64.le_iff_toNat_le.mp h
  unfold exact
  split
  next => exact hnat
  next => exact Nat.div_le_div_right (Nat.mul_le_mul_right _ hnat)

end Sample

-- ---------------------------------------------------------------------------
-- Hit rates
-- ---------------------------------------------------------------------------

def exactRate (accesses misses : Nat) : String :=
  if accesses = 0 then "na"
  else if misses ≥ accesses then "0"
  else toString (100 - 100 * misses / accesses)

/-- A product that wrapped is short by at least `2 ^ 64`, which is more than
one quotient. -/
theorem div_lt_of_wraps (ha : 0 < a) (hlt : a < 2 ^ 64) (hn : 2 ^ 64 ≤ n) :
    n % 2 ^ 64 / a < n / a := by
  have hle : n % 2 ^ 64 + a ≤ n := by omega
  calc n % 2 ^ 64 / a < n % 2 ^ 64 / a + 1 := Nat.lt_succ_self _
    _ = (n % 2 ^ 64 + a) / a := (Nat.add_div_right _ ha).symm
    _ ≤ n / a := Nat.div_le_div_right hle

theorem rate_lt {a m : Nat} (h : m < a) : 100 * m / a < 100 :=
  Nat.div_lt_of_lt_mul (by rw [Nat.mul_comm]; exact Nat.mul_lt_mul_of_pos_right h (by decide))

theorem toNat_rate {accesses misses : UInt64} (h : misses.toNat < accesses.toNat) :
    (100 - misses * 100 / accesses).toNat =
      100 - 100 * misses.toNat % 2 ^ 64 / accesses.toNat := by
  have hq : (misses * 100 / accesses).toNat = 100 * misses.toNat % 2 ^ 64 / accesses.toNat := by
    rw [UInt64.toNat_div, UInt64.toNat_mul, Nat.mul_comm]
    rfl
  have hlt : 100 * misses.toNat % 2 ^ 64 / accesses.toNat < 100 :=
    (Nat.div_le_div_right (Nat.mod_le _ _)).trans_lt (rate_lt h)
  rw [UInt64.toNat_sub_of_le _ _ (UInt64.le_iff_toNat_le.mpr (hq ▸ hlt.le)), hq]
  rfl

/-- The printed rate is the exact one unless `misses * 100` wraps. -/
theorem hitRatePercent_eq_iff (accesses misses : UInt64) :
    hitRatePercent accesses misses = exactRate accesses.toNat misses.toNat ↔
      accesses.toNat ≤ misses.toNat ∨ 100 * misses.toNat < 2 ^ 64 := by
  have h0 : accesses = 0 ↔ accesses.toNat = 0 := UInt64.toNat_inj.symm
  have hle : misses ≥ accesses ↔ misses.toNat ≥ accesses.toNat := UInt64.le_iff_toNat_le
  simp only [hitRatePercent, exactRate, h0, hle]
  by_cases ha : accesses.toNat = 0
  · simp [ha]
  by_cases hm : misses.toNat ≥ accesses.toNat
  · simp [ha, hm]
  rw [if_neg ha, if_neg ha, if_neg hm, if_neg hm, or_iff_right hm]
  have hlt : misses.toNat < accesses.toNat := Nat.lt_of_not_le hm
  have hrate := rate_lt hlt
  change toString (100 - misses * 100 / accesses).toNat = _ ↔ _
  rw [toNat_rate hlt]
  constructor
  · intro heq
    -- decimal digits determine the number
    have hdigits := congrArg (fun s : String => Nat.ofDigitChars 10 s.toList 0) heq
    simp only [Nat.toString_eq_repr, Nat.toList_repr, Nat.ofDigitChars_ten_toDigits] at hdigits
    by_contra hwrap
    have := div_lt_of_wraps (Nat.pos_of_ne_zero ha) accesses.toNat_lt (Nat.le_of_not_lt hwrap)
    omega
  · intro hfits
    rw [Nat.mod_eq_of_lt hfits]

-- ---------------------------------------------------------------------------
-- Cells
-- ---------------------------------------------------------------------------

def PerfCounters.core (counter : PerfCounters) (count : UInt64) : Sample :=
  ⟨count, counter.core_time_enabled, counter.core_time_running⟩

def PerfCounters.l1d (counter : PerfCounters) (count : UInt64) : Sample :=
  ⟨count, counter.l1d_time_enabled, counter.l1d_time_running⟩

def PerfCounters.llc (counter : PerfCounters) (count : UInt64) : Sample :=
  ⟨count, counter.llc_time_enabled, counter.llc_time_running⟩

inductive Rate
  | branch
  | l1d
  | llc

def Rate.accesses (counter : PerfCounters) : Rate → Sample
  | .branch => counter.core counter.branches
  | .l1d => counter.l1d counter.l1d_accesses
  | .llc => counter.llc counter.llc_accesses

def Rate.misses (counter : PerfCounters) : Rate → Sample
  | .branch => counter.core counter.missed_branches
  | .l1d => counter.l1d counter.l1d_misses
  | .llc => counter.llc counter.llc_misses

def exactCell (result : BenchResult) : String :=
  let counter := result.counter
  let cycles := (counter.core counter.cycles).exact
  let cycles_per_lookup := if result.lookups = 0 then 0 else cycles / result.lookups.toNat
  let hit (rate : Rate) := exactRate (rate.accesses counter).exact (rate.misses counter).exact
  s!"{cycles_per_lookup}/{hit .branch}/{hit .l1d}/{hit .llc}"

/-- All seven counters are scaled exactly, so that scaling keeps misses below
accesses, and all three rates and the cell are printed as they should be. -/
structure CellExact (result : BenchResult) : Prop where
  cycles : (result.counter.core result.counter.cycles).Exact
  accesses : ∀ rate : Rate, (rate.accesses result.counter).Exact
  misses : ∀ rate : Rate, (rate.misses result.counter).Exact
  monotone : ∀ (rate : Rate) (accesses misses : UInt64),
    (rate.accesses result.counter).scale = some accesses →
    (rate.misses result.counter).scale = some misses →
    (rate.misses result.counter).count ≤ (rate.accesses result.counter).count → misses ≤ accesses
  rates : ∀ (rate : Rate) (accesses misses : UInt64),
    (rate.accesses result.counter).scale = some accesses →
    (rate.misses result.counter).scale = some misses →
    hitRatePercent accesses misses = exactRate accesses.toNat misses.toNat
  cell : formatCell result = some (exactCell result)

structure CellInRange (result : BenchResult) : Prop where
  cycles : (result.counter.core result.counter.cycles).InRange
  accesses : ∀ rate : Rate, (rate.accesses result.counter).InRange
  misses : ∀ rate : Rate, (rate.misses result.counter).InRange
  rates : ∀ rate : Rate, (rate.accesses result.counter).exact ≤ (rate.misses result.counter).exact ∨
    100 * (rate.misses result.counter).exact < 2 ^ 64

section
variable {result : BenchResult}

theorem Rate.exact_le (rate : Rate) (counter : PerfCounters)
    (h : (rate.misses counter).count ≤ (rate.accesses counter).count) :
    (rate.misses counter).exact ≤ (rate.accesses counter).exact := by
  cases rate with
  | branch => exact Sample.exact_le (s := counter.core counter.branches) h
  | l1d => exact Sample.exact_le (s := counter.l1d counter.l1d_accesses) h
  | llc => exact Sample.exact_le (s := counter.llc counter.llc_accesses) h

theorem formatCell_eq {accesses misses : Rate → UInt64}
    (hc : (result.counter.core result.counter.cycles).scale = some cycles)
    (ha : ∀ rate : Rate, (rate.accesses result.counter).scale = some (accesses rate))
    (hm : ∀ rate : Rate, (rate.misses result.counter).scale = some (misses rate)) :
    formatCell result = some
      (let cycles_per_lookup := if result.lookups = 0 then 0 else cycles / result.lookups
      let hit (rate : Rate) := hitRatePercent (accesses rate) (misses rate)
      s!"{cycles_per_lookup}/{hit .branch}/{hit .l1d}/{hit .llc}") := by
  have hbranches := ha .branch
  have hmissed := hm .branch
  have hl1d := ha .l1d
  have hl1d_misses := hm .l1d
  have hllc := ha .llc
  have hllc_misses := hm .llc
  simp only [Sample.scale, Rate.accesses, Rate.misses, PerfCounters.core, PerfCounters.l1d,
    PerfCounters.llc] at *
  simp only [formatCell, hc, hbranches, hmissed, hl1d, hl1d_misses, hllc, hllc_misses,
    Option.bind_eq_bind, Option.bind_some]
  rfl

theorem toString_cyclesPerLookup (cycles lookups : UInt64) :
    toString (if lookups = 0 then 0 else cycles / lookups) =
      toString (if lookups = 0 then 0 else cycles.toNat / lookups.toNat) := by
  split
  next => rfl
  next => exact congrArg toString (UInt64.toNat_div cycles lookups)

/-- A cell is exact precisely on the inputs within range. -/
theorem cell_exact_iff (result : BenchResult) : CellExact result ↔ CellInRange result := by
  constructor
  · intro h
    refine ⟨(Sample.exact_iff _).mp h.cycles, fun rate => (Sample.exact_iff _).mp (h.accesses rate),
      fun rate => (Sample.exact_iff _).mp (h.misses rate), fun rate => ?_⟩
    obtain ⟨accesses, ha, haexact⟩ := h.accesses rate
    obtain ⟨misses, hm, hmexact⟩ := h.misses rate
    rw [← haexact, ← hmexact]
    exact (hitRatePercent_eq_iff accesses misses).mp (h.rates rate accesses misses ha hm)
  · intro h
    obtain ⟨cycles, hc, hcexact⟩ := (Sample.exact_iff _).mpr h.cycles
    choose accesses ha haexact using fun rate => (Sample.exact_iff _).mpr (h.accesses rate)
    choose misses hm hmexact using fun rate => (Sample.exact_iff _).mpr (h.misses rate)
    have hrate : ∀ rate, hitRatePercent (accesses rate) (misses rate) =
        exactRate (rate.accesses result.counter).exact (rate.misses result.counter).exact := by
      intro rate
      rw [← haexact, ← hmexact, hitRatePercent_eq_iff, haexact, hmexact]
      exact h.rates rate
    refine ⟨⟨cycles, hc, hcexact⟩, fun rate => ⟨_, ha rate, haexact rate⟩,
      fun rate => ⟨_, hm rate, hmexact rate⟩, fun rate a m hsa hsm hle => ?_,
      fun rate a m hsa hsm => ?_, ?_⟩
    · cases (ha rate).symm.trans hsa
      cases (hm rate).symm.trans hsm
      rw [UInt64.le_iff_toNat_le, haexact, hmexact]
      exact rate.exact_le result.counter hle
    · cases (ha rate).symm.trans hsa
      cases (hm rate).symm.trans hsm
      rw [hrate, haexact, hmexact]
    · rw [formatCell_eq hc ha hm]
      simp only [hrate, exactCell, toString_cyclesPerLookup, hcexact]

/-- One miss short of `2 ^ 60` accesses: the product by 100 wraps, and the
cell shows 97 where the rate is 1. -/
def wrappedResult : BenchResult where
  counter := { l1d_accesses := 0x1000000000000000, l1d_misses := 0x0FFFFFFFFFFFFFFF }
  sum := 0
  lookups := 1

theorem wrapped_cell_inexact :
    (∀ rate : Rate, (rate.accesses wrappedResult.counter).time_running ≤
      (rate.accesses wrappedResult.counter).time_enabled) ∧
    formatCell wrappedResult = some "0/na/97/na" ∧
    exactCell wrappedResult = "0/na/1/na" ∧ ¬ CellExact wrappedResult := by
  have hformat : formatCell wrappedResult = some "0/na/97/na" := by decide +kernel
  have hexact : exactCell wrappedResult = "0/na/1/na" := by decide +kernel
  refine ⟨fun rate => by cases rate <;> decide, hformat, hexact, fun h => ?_⟩
  have hcell := h.cell
  rw [hformat, hexact] at hcell
  exact absurd hcell (by decide)

end

end BenchHashmaps
