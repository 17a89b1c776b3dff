import Mathlib.Data.List.GetD
import Mathlib.Tactic

/-!
Byte strings with random access: reading a range at an offset, and numbers
stored with the least significant byte first. A range is either read whole or
not at all, as by a caller that treats a short read as an error.
-/

namespace FsFat.Bytes

/-- The `count` bytes at `offset`, if all of them are there. -/
def readAt (bytes : List UInt8) (offset : Int) (count : Nat) : Option (List UInt8) :=
  if 0 ≤ offset ∧ offset.toNat + count ≤ bytes.length then
    some ((bytes.drop offset.toNat).take count)
  else none

/-- The value of the byte at `index`, zero past the end. -/
def byteAt (bytes : List UInt8) (index : Nat) : Nat :=
  (bytes.getD index 0).toNat

/-- A 16-bit number, least significant byte first. -/
def uint16At (bytes : List UInt8) (index : Nat) : Nat :=
  byteAt bytes index + 2 ^ 8 * byteAt bytes (index + 1)

/-- A 24-bit number, least significant byte first. -/
def uint24At (bytes : List UInt8) (index : Nat) : Nat :=
  uint16At bytes index + 2 ^ 16 * byteAt bytes (index + 2)

/-- A 32-bit number, least significant byte first. -/
def uint32At (bytes : List UInt8) (index : Nat) : Nat :=
  uint16At bytes index + 2 ^ 16 * uint16At bytes (index + 2)

/-- A 64-bit number, least significant byte first. -/
def uint64At (bytes : List UInt8) (index : Nat) : Nat :=
  uint32At bytes index + 2 ^ 32 * uint32At bytes (index + 4)

theorem byteAt_lt (bytes : List UInt8) (index : Nat) : byteAt bytes index < 2 ^ 8 :=
  UInt8.toNat_lt _

theorem uint16At_lt (bytes : List UInt8) (index : Nat) : uint16At bytes index < 2 ^ 16 := by
  have h0 := byteAt_lt bytes index
  have h1 := byteAt_lt bytes (index + 1)
  unfold uint16At
  omega

theorem uint32At_lt (bytes : List UInt8) (index : Nat) : uint32At bytes index < 2 ^ 32 := by
  have h0 := uint16At_lt bytes index
  have h1 := uint16At_lt bytes (index + 2)
  unfold uint32At
  omega

/-- A number has the value of its bytes, wherever they are. -/
theorem uint16At_congr {first second : List UInt8} {i j : Nat}
    (h : ∀ k < 2, byteAt first (i + k) = byteAt second (j + k)) :
    uint16At first i = uint16At second j := by
  have h0 := h 0 (by omega)
  rw [Nat.add_zero, Nat.add_zero] at h0
  rw [uint16At, uint16At, h0, h 1 (by omega)]

theorem uint32At_congr {first second : List UInt8} {i j : Nat}
    (h : ∀ k < 4, byteAt first (i + k) = byteAt second (j + k)) :
    uint32At first i = uint32At second j := by
  have hlow := uint16At_congr fun k hk => h k (by omega)
  have hhigh : uint16At first (i + 2) = uint16At second (j + 2) :=
    uint16At_congr fun k hk => by rw [Nat.add_assoc, h (2 + k) (by omega), Nat.add_assoc]
  rw [uint32At, uint32At, hlow, hhigh]

theorem byteAt_of_le {bytes : List UInt8} {index : Nat} (h : bytes.length ≤ index) :
    byteAt bytes index = 0 := by
  rw [byteAt, List.getD_eq_default _ _ h]
  rfl

theorem byteAt_drop (bytes : List UInt8) (skip index : Nat) :
    byteAt (bytes.drop skip) index = byteAt bytes (skip + index) := by
  simp [byteAt, List.getD_eq_getElem?_getD, List.getElem?_drop]

theorem byteAt_take_of_lt (bytes : List UInt8) {count index : Nat} (h : index < count) :
    byteAt (bytes.take count) index = byteAt bytes index := by
  simp [byteAt, List.getD_eq_getElem?_getD, h]

theorem byteAt_append_of_lt {bytes : List UInt8} (rest : List UInt8) {index : Nat}
    (h : index < bytes.length) : byteAt (bytes ++ rest) index = byteAt bytes index := by
  rw [byteAt, byteAt, List.getD_append _ _ _ _ h]

/-- Zero bytes behind a byte string do not change what is read from it. -/
theorem byteAt_append_zeros (bytes : List UInt8) (count index : Nat) :
    byteAt (bytes ++ List.replicate count 0) index = byteAt bytes index := by
  by_cases h : index < bytes.length
  · exact byteAt_append_of_lt _ h
  · have hzero : byteAt bytes index = 0 := byteAt_of_le (by omega)
    rw [hzero, byteAt, List.getD_append_right _ _ _ _ (by omega), List.getD_eq_getElem?_getD,
      List.getElem?_replicate]
    split <;> rfl

theorem readAt_of_le {bytes : List UInt8} {offset : Int} {count : Nat}
    (h0 : 0 ≤ offset) (h : offset.toNat + count ≤ bytes.length) :
    readAt bytes offset count = some ((bytes.drop offset.toNat).take count) := by
  simp [readAt, h0, h]

theorem readAt_eq_some_iff {bytes : List UInt8} {offset : Int} {count : Nat}
    {range : List UInt8} :
    readAt bytes offset count = some range ↔
      0 ≤ offset ∧ offset.toNat + count ≤ bytes.length ∧
        range = (bytes.drop offset.toNat).take count := by
  unfold readAt
  split
  · next h => simp [h, eq_comm]
  · next h =>
    constructor
    · intro hn
      cases hn
    · rintro ⟨h0, h1, _⟩
      exact absurd ⟨h0, h1⟩ h

theorem readAt_neg {bytes : List UInt8} {offset : Int} (h : offset < 0) (count : Nat) :
    readAt bytes offset count = none := by
  simp [readAt, h]

theorem length_of_readAt {bytes : List UInt8} {offset : Int} {count : Nat}
    {range : List UInt8} (h : readAt bytes offset count = some range) :
    range.length = count := by
  obtain ⟨_, hle, rfl⟩ := readAt_eq_some_iff.mp h
  simp only [List.length_take, List.length_drop]
  omega

/-- A range inside a range that can be read can be read. -/
theorem readAt_sub {bytes : List UInt8} {offset : Int} {count : Nat} {range : List UInt8}
    (h : readAt bytes offset count = some range) (skip size : Nat)
    (hsub : skip + size ≤ count) :
    readAt bytes (offset + skip) size = some ((range.drop skip).take size) := by
  obtain ⟨h0, hle, rfl⟩ := readAt_eq_some_iff.mp h
  have hnat : (offset + skip).toNat = offset.toNat + skip := by omega
  rw [readAt_of_le (by omega) (by omega), hnat, List.drop_take, List.take_take,
    List.drop_drop, Nat.min_eq_left (by omega)]

end FsFat.Bytes
