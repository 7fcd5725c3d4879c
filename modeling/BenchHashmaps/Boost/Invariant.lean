import BenchHashmaps.Boost.SizeLaws
import BenchHashmaps.Boost.Table
import BenchHashmaps.Lib.Probing
import BenchHashmaps.Lib.Slots

/-!
# The invariant of the arrays

The groups describe the elements: the byte of a slot is the reduced hash of
the element in it, and every group an element was moved past carries the
overflow mark of its hash. Marking an overflow, constructing an element and
destroying one keep it.
-/

namespace BenchHashmaps.Boost

open Lib
open Group15 (Layout)

variable {γ K V : Type}

-- ---------------------------------------------------------------------------
-- Where a key is looked for
-- ---------------------------------------------------------------------------

namespace Policy

variable (P : Policy K V)

/-- The group the hash of a key selects. -/
def home (level : Nat) (x : K) : Nat := (P.hashFor x).toNat / 2 ^ (64 - level)

def probe (level : Nat) (x : K) (j : Nat) : Nat := triangular (2 ^ level) (P.home level x) j

/-- The overflow bit the hash of a key uses. -/
def mark (x : K) : Nat := (P.hashFor x).toNat % 8

theorem home_lt (hl : level ≤ 64) (x : K) : P.home level x < 2 ^ level := by
  refine Nat.div_lt_of_lt_mul ?_
  rw [← Nat.pow_add, Nat.sub_add_cancel hl]
  exact (P.hashFor x).toNat_lt

theorem probe_lt (level : Nat) (x : K) (j : Nat) : P.probe level x j < 2 ^ level :=
  triangular_lt (Nat.two_pow_pos level) _ j

theorem mark_lt (x : K) : P.mark x < 8 := Nat.mod_lt _ (by decide)

end Policy

namespace Arrays

-- ---------------------------------------------------------------------------
-- The elements
-- ---------------------------------------------------------------------------

def slot (a : Arrays γ K V) (pos n : Nat) : Option (K × V) :=
  ((a.elements.getD [])[pos * 15 + n]?).join

def contents (a : Arrays γ K V) : Multiset (K × V) := Lib.contents (a.elements.getD [])

/-- Arrays of `2 ^ level` groups. -/
structure Geometry (P : Policy K V) (level : Nat) (a : Arrays γ K V) : Prop where
  one_le : 1 ≤ level
  bytes : P.sizeofValue.toNat * slots level + 16 * 2 ^ level < 2 ^ 62
  sizeIndex : a.groupsSizeIndex.toNat = 64 - level
  sizeMask : a.groupsSizeMask.toNat = 2 ^ level - 1
  groups_length : a.groups.length = 2 ^ level
  elements : ∃ es, a.elements = some es ∧ es.length = slots level

variable {P : Policy K V} {a : Arrays γ K V}

theorem Geometry.level_le (h : a.Geometry P level) : level ≤ 57 := by
  by_contra hlt
  have hpow : 2 ^ 58 ≤ 2 ^ level := Nat.pow_le_pow_right (by decide) (by omega)
  have hbytes := h.bytes
  omega

theorem Geometry.groups_le (h : a.Geometry P level) (hfuel : 2 ^ 64 ≤ fuel) :
    2 ^ level ≤ fuel := by
  have hle := h.level_le
  exact (Nat.pow_le_pow_right (by decide) (by omega)).trans hfuel

theorem Geometry.capacity_eq (h : a.Geometry P level) : a.capacity.toNat = slots level := by
  obtain ⟨es, hes, -⟩ := h.elements
  have hle := h.level_le
  have hpow : 2 ^ level < 2 ^ 64 := Nat.pow_lt_pow_right (by decide) (by omega)
  have hone := Nat.two_pow_pos level
  have hsize : (a.groupsSizeMask + 1).toNat = 2 ^ level := by
    rw [UInt64.toNat_add, h.sizeMask, show (1 : UInt64).toNat = 1 from rfl,
      Nat.sub_add_cancel hone, Nat.mod_eq_of_lt hpow]
  rw [capacity, hes, Option.isSome_some, if_pos rfl]
  exact toNat_capacityOf (by omega) hsize

theorem Geometry.group_ok (h : a.Geometry P level) (hpos : pos < 2 ^ level) :
    ∃ pg, a.group pos = .ok pg ∧ a.groups[pos]? = some pg := by
  rw [← h.groups_length] at hpos
  refine ⟨_, ?_, List.getElem?_eq_getElem hpos⟩
  rw [group, List.getElem?_eq_getElem hpos]

theorem slot_eq_some (hes : a.elements = some es) :
    a.slot pos n = some e ↔ es[pos * 15 + n]? = some (some e) := by
  rw [slot, hes, Option.getD_some, Option.join_eq_some_iff]

theorem Geometry.slot_lt (h : a.Geometry P level) (he : a.slot pos n = some e) :
    pos * 15 + n < slots level := by
  obtain ⟨es, hes, hlen⟩ := h.elements
  rw [← hlen]
  exact (List.getElem?_eq_some_iff.mp ((slot_eq_some hes).mp he)).1

theorem Geometry.pos_lt (h : a.Geometry P level) (he : a.slot pos n = some e) :
    pos < 2 ^ level := by
  have hlt := h.slot_lt he
  have := slots_succ level
  omega

theorem element_ok (he : a.slot pos n = some e) : a.element pos n = .ok e := by
  cases hes : a.elements with
  | none =>
    rw [slot, hes, Option.getD_none] at he
    cases he
  | some es => simp only [element, hes, (slot_eq_some hes).mp he]

theorem mem_contents {e : K × V} :
    e ∈ a.contents ↔ ∃ pos n, n < 15 ∧ a.slot pos n = some e := by
  rw [contents, Lib.mem_contents]
  constructor
  · rintro ⟨i, hi⟩
    refine ⟨i / 15, i % 15, Nat.mod_lt _ (by decide), ?_⟩
    rw [slot, Nat.div_add_mod', hi]
    rfl
  · rintro ⟨pos, n, -, he⟩
    exact ⟨pos * 15 + n, Option.join_eq_some_iff.mp he⟩

theorem getElem?_setGroup (hpg : a.groups[pos]? = some pg) (pg' : γ) (pos' : Nat) :
    (a.setGroup pos pg').groups[pos']? = if pos' = pos then some pg' else a.groups[pos']? := by
  have hlt : pos < a.groups.length := (List.getElem?_eq_some_iff.mp hpg).1
  rw [setGroup, List.getElem?_set]
  by_cases h : pos' = pos
  · rw [h, if_pos rfl, if_pos rfl, if_pos hlt]
  · rw [if_neg h, if_neg (Ne.symm h)]

theorem Geometry.setGroup (h : a.Geometry P level) (pos : Nat) (pg : γ) :
    (a.setGroup pos pg).Geometry P level where
  one_le := h.one_le
  bytes := h.bytes
  sizeIndex := h.sizeIndex
  sizeMask := h.sizeMask
  groups_length := List.length_set.trans h.groups_length
  elements := h.elements

theorem Geometry.setElement_ok (h : a.Geometry P level) (hlt : pos * 15 + n < slots level)
    (hn : n < 15) (e : Option (K × V)) :
    ∃ a₁, a.setElement pos n e = .ok a₁ ∧ a₁.Geometry P level ∧ a₁.groups = a.groups ∧
      (∃ es, a.elements = some es ∧ a₁.elements = some (es.set (pos * 15 + n) e)) ∧
      ∀ pos' n', n' < 15 →
        a₁.slot pos' n' = if pos' = pos ∧ n' = n then e else a.slot pos' n' := by
  obtain ⟨es, hes, hlen⟩ := h.elements
  have hlt' : pos * 15 + n < es.length := hlen ▸ hlt
  have hset : a.setElement pos n e =
      .ok { a with elements := some (es.set (pos * 15 + n) e) } := by
    simp only [setElement, hes, if_pos hlt']
  refine ⟨_, hset, { h with elements := ⟨_, rfl, List.length_set.trans hlen⟩ }, rfl,
    ⟨es, hes, rfl⟩, fun pos' n' hn' => ?_⟩
  have hiff : pos * 15 + n = pos' * 15 + n' ↔ pos' = pos ∧ n' = n := by omega
  rw [slot, slot, hes]
  change ((es.set (pos * 15 + n) e)[pos' * 15 + n']?).join = _
  rw [List.getElem?_set, if_pos hlt']
  simp only [hiff]
  split <;> rfl

-- ---------------------------------------------------------------------------
-- The groups describe the elements
-- ---------------------------------------------------------------------------

variable [Group15 γ] [Layout γ]

def byteAt (a : Arrays γ K V) (pos n : Nat) : UInt8 := (a.groups[pos]?).elim 0 (Layout.byte · n)

def overflowedAt (a : Arrays γ K V) (pos j : Nat) : Bool :=
  (a.groups[pos]?).elim false (Layout.overflowed · j)

structure Ok (P : Policy K V) (level : Nat) (a : Arrays γ K V) : Prop extends
    a.Geometry P level where
  byte_slot : pos < 2 ^ level → n < 15 → pos * 15 + n ≠ slots level →
    a.byteAt pos n = (a.slot pos n).elim available fun e => reducedHash (P.hashFor e.1)
  byte_sentinel : a.byteAt (2 ^ level - 1) 14 = sentinel
  reached : n < 15 → a.slot pos n = some e →
    ∃ j < 2 ^ level, P.probe level e.1 j = pos ∧
      ∀ i < j, a.overflowedAt (P.probe level e.1 i) (P.mark e.1)
  unique : n < 15 → n' < 15 → a.slot pos n = some e → a.slot pos' n' = some e' → e.1 = e'.1 →
    pos = pos' ∧ n = n'

theorem byteAt_eq (hpg : a.groups[pos]? = some pg) (n : Nat) :
    a.byteAt pos n = Layout.byte pg n := by
  rw [byteAt, hpg]
  rfl

theorem overflowedAt_eq (hpg : a.groups[pos]? = some pg) (j : Nat) :
    a.overflowedAt pos j = Layout.overflowed pg j := by
  rw [overflowedAt, hpg]
  rfl

theorem sentinel_slot (hpos : pos < 2 ^ level) (hn : n < 15) :
    pos * 15 + n = slots level ↔ pos = 2 ^ level - 1 ∧ n = 14 := by
  have := slots_succ level
  constructor
  · intro h
    omega
  · rintro ⟨rfl, rfl⟩
    omega

theorem Ok.slot_of_byte (h : a.Ok P level) (hpos : pos < 2 ^ level) (hn : n < 15)
    (hav : a.byteAt pos n ≠ available) (hsent : a.byteAt pos n ≠ sentinel) :
    ∃ e, a.slot pos n = some e := by
  by_cases hlast : pos * 15 + n = slots level
  · obtain ⟨rfl, rfl⟩ := (sentinel_slot hpos hn).mp hlast
    exact absurd h.byte_sentinel hsent
  · rw [h.byte_slot hpos hn hlast] at hav
    cases hslot : a.slot pos n with
    | none =>
      rw [hslot] at hav
      exact absurd rfl hav
    | some e => exact ⟨e, rfl⟩

theorem Ok.byte_of_slot (h : a.Ok P level) (hn : n < 15) (he : a.slot pos n = some e) :
    a.byteAt pos n = reducedHash (P.hashFor e.1) := by
  rw [h.byte_slot (h.pos_lt he) hn (Nat.ne_of_lt (h.slot_lt he)), he]
  rfl

theorem Ok.slot_of_available (h : a.Ok P level) (hpos : pos < 2 ^ level) (hn : n < 15)
    (hav : a.byteAt pos n = available) : pos * 15 + n < slots level ∧ a.slot pos n = none := by
  have hlast : pos * 15 + n ≠ slots level := by
    intro hlast
    obtain ⟨rfl, rfl⟩ := (sentinel_slot hpos hn).mp hlast
    exact absurd (hav.symm.trans h.byte_sentinel) (by decide)
  refine ⟨?_, ?_⟩
  · have := slots_succ level
    omega
  · cases hslot : a.slot pos n with
    | none => rfl
    | some e => exact absurd ((h.byte_of_slot hn hslot).symm.trans hav) (reducedHash_ne_available _)

-- ---------------------------------------------------------------------------
-- Writing
-- ---------------------------------------------------------------------------

theorem byteAt_markOverflow (hpg : a.groups[pos]? = some pg) (hash : UInt64) (pos' : Nat)
    (hn : n < 15) : (a.setGroup pos (markOverflow pg hash)).byteAt pos' n = a.byteAt pos' n := by
  rw [byteAt, byteAt, getElem?_setGroup hpg]
  split
  case isTrue heq => rw [heq, hpg, Option.elim_some, Layout.byte_markOverflow hn, Option.elim_some]
  case isFalse => rfl

theorem overflowedAt_mono (hpg : a.groups[pos]? = some pg) (hash : UInt64)
    (h : a.overflowedAt pos' (P.mark x)) :
    (a.setGroup pos (markOverflow pg hash)).overflowedAt pos' (P.mark x) := by
  rw [overflowedAt, getElem?_setGroup hpg]
  split
  case isTrue heq =>
    rw [heq, overflowedAt_eq hpg] at h
    rw [Option.elim_some, Layout.overflowed_markOverflow (P.mark_lt x), h, Bool.true_or]
  case isFalse => exact h

theorem Ok.mark (h : a.Ok P level) (hpg : a.groups[pos]? = some pg) (hash : UInt64) :
    (a.setGroup pos (markOverflow pg hash)).Ok P level := by
  refine { h.toGeometry.setGroup pos _ with
    byte_slot := fun hpos hn hlast =>
      (byteAt_markOverflow hpg hash _ hn).trans (h.byte_slot hpos hn hlast)
    byte_sentinel := (byteAt_markOverflow hpg hash _ (by decide)).trans h.byte_sentinel
    reached := fun hn he => ?_
    unique := h.unique }
  obtain ⟨j, hj, hprobe, hmarked⟩ := h.reached hn he
  exact ⟨j, hj, hprobe, fun i hi => overflowedAt_mono hpg hash (hmarked i hi)⟩

theorem overflowedAt_markOverflow (hpg : a.groups[pos]? = some pg) (x : K) :
    (a.setGroup pos (markOverflow pg (P.hashFor x))).overflowedAt pos (P.mark x) := by
  rw [overflowedAt, getElem?_setGroup hpg, if_pos rfl, Option.elim_some,
    Layout.overflowed_markOverflow (P.mark_lt x), Policy.mark, beq_self_eq_true, Bool.or_true]

/-- A slot and its byte rewritten together, as `emplace` and `erase` do. -/
structure Rewrites (a : Arrays γ K V) (pos n : Nat) (e : Option (K × V)) (byte : UInt8)
    (a' : Arrays γ K V) : Prop where
  slot_eq : n' < 15 → a'.slot pos' n' = if pos' = pos ∧ n' = n then e else a.slot pos' n'
  byte_eq : n' < 15 → a'.byteAt pos' n' = if pos' = pos ∧ n' = n then byte else a.byteAt pos' n'
  overflowed_eq : j < 8 → a'.overflowedAt pos' j = a.overflowedAt pos' j

theorem Geometry.rewrite (h : a.Geometry P level) (hlt : pos * 15 + n < slots level) (hn : n < 15)
    (hpg : a.groups[pos]? = some pg) (e : Option (K × V)) (pg' : γ) (byte : UInt8)
    (hbyte : ∀ n' < 15, Layout.byte pg' n' = if n' = n then byte else Layout.byte pg n')
    (hover : ∀ j < 8, Layout.overflowed pg' j = Layout.overflowed pg j) :
    ∃ a₁, a.setElement pos n e = .ok a₁ ∧ (a₁.setGroup pos pg').Geometry P level ∧
      (∃ es, a.elements = some es ∧ a₁.elements = some (es.set (pos * 15 + n) e)) ∧
      a₁.groups = a.groups ∧ a.Rewrites pos n e byte (a₁.setGroup pos pg') := by
  obtain ⟨a₁, hset, hg, hgroups, hes, hslot⟩ := h.setElement_ok hlt hn e
  have hpg₁ : a₁.groups[pos]? = some pg := hgroups ▸ hpg
  refine ⟨a₁, hset, hg.setGroup pos pg', hes, hgroups, fun hn' => hslot _ _ hn', ?_, ?_⟩
  · intro n' pos' hn'
    rw [byteAt, byteAt, getElem?_setGroup hpg₁, hgroups]
    by_cases hpos : pos' = pos
    · rw [if_pos hpos, hpos, hpg, Option.elim_some, Option.elim_some, hbyte n' hn']
      simp
    · rw [if_neg hpos, if_neg (fun hand => hpos hand.1)]
  · intro j pos' hj
    rw [overflowedAt, overflowedAt, getElem?_setGroup hpg₁, hgroups]
    split
    case isTrue heq => rw [heq, hpg, Option.elim_some, Option.elim_some, hover j hj]
    case isFalse => rfl

theorem Ok.place (h : a.Ok P level)
    (hr : a.Rewrites pos n (some e) (reducedHash (P.hashFor e.1)) a')
    (hg : a'.Geometry P level) (hpos : pos < 2 ^ level) (hn : n < 15)
    (hlt : pos * 15 + n < slots level) (hnew : ∀ e' ∈ a.contents, e'.1 ≠ e.1)
    (hreach : ∃ j < 2 ^ level, P.probe level e.1 j = pos ∧
      ∀ i < j, a.overflowedAt (P.probe level e.1 i) (P.mark e.1)) : a'.Ok P level := by
  have hover : ∀ pos' x, a'.overflowedAt pos' (P.mark x) = a.overflowedAt pos' (P.mark x) :=
    fun _ x => hr.overflowed_eq (P.mark_lt x)
  have hmem : ∀ {pos' n' e'}, n' < 15 → a.slot pos' n' = some e' → e'.1 ≠ e.1 :=
    fun hn' he' => hnew _ (mem_contents.mpr ⟨_, _, hn', he'⟩)
  refine { hg with
    byte_slot := fun {pos' n'} hpos' hn' hlast => ?_
    byte_sentinel := ?_
    reached := fun {n' pos' e'} hn' he' => ?_
    unique := fun {n₁ n₂ p₁ e₁ p₂ e₂} h₁ h₂ he₁ he₂ hkey => ?_ }
  · rw [hr.byte_eq hn', hr.slot_eq hn']
    split
    case isTrue => rfl
    case isFalse => exact h.byte_slot hpos' hn' hlast
  · rw [hr.byte_eq (by decide), if_neg, h.byte_sentinel]
    intro hlast
    have := (sentinel_slot hpos hn).mpr ⟨hlast.1.symm, hlast.2.symm⟩
    omega
  · rw [hr.slot_eq hn'] at he'
    simp only [hover]
    split at he'
    case isTrue heq =>
      cases he'
      rwa [heq.1]
    case isFalse => exact h.reached hn' he'
  · rw [hr.slot_eq h₁] at he₁
    rw [hr.slot_eq h₂] at he₂
    split at he₁ <;> split at he₂
    case isTrue.isTrue hp₁ hp₂ => exact ⟨hp₁.1.trans hp₂.1.symm, hp₁.2.trans hp₂.2.symm⟩
    case isTrue.isFalse =>
      cases he₁
      exact absurd hkey.symm (hmem h₂ he₂)
    case isFalse.isTrue =>
      cases he₂
      exact absurd hkey (hmem h₁ he₁)
    case isFalse.isFalse => exact h.unique h₁ h₂ he₁ he₂ hkey

theorem Ok.remove (h : a.Ok P level) (hr : a.Rewrites pos n none available a')
    (hg : a'.Geometry P level) (hpos : pos < 2 ^ level) (hn : n < 15)
    (hlt : pos * 15 + n < slots level) : a'.Ok P level := by
  have hover : ∀ pos' x, a'.overflowedAt pos' (P.mark x) = a.overflowedAt pos' (P.mark x) :=
    fun _ x => hr.overflowed_eq (P.mark_lt x)
  have hold : ∀ {pos' n' e'}, n' < 15 → a'.slot pos' n' = some e' → a.slot pos' n' = some e' := by
    intro pos' n' e' hn' he'
    rw [hr.slot_eq hn'] at he'
    split at he'
    case isTrue => cases he'
    case isFalse => exact he'
  refine { hg with
    byte_slot := fun {pos' n'} hpos' hn' hlast => ?_
    byte_sentinel := ?_
    reached := fun hn' he' => ?_
    unique := fun h₁ h₂ he₁ he₂ hkey => h.unique h₁ h₂ (hold h₁ he₁) (hold h₂ he₂) hkey }
  · rw [hr.byte_eq hn', hr.slot_eq hn']
    split
    case isTrue => rfl
    case isFalse => exact h.byte_slot hpos' hn' hlast
  · rw [hr.byte_eq (by decide), if_neg, h.byte_sentinel]
    intro hlast
    have := (sentinel_slot hpos hn).mpr ⟨hlast.1.symm, hlast.2.symm⟩
    omega
  · simp only [hover]
    exact h.reached hn' (hold hn' he')

end Arrays

end BenchHashmaps.Boost
