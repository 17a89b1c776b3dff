import FsFat.DateTime
import FsFat.FileEntry

/-!
The times of a file entry in the mount tool: `mount_file_entry.c`, without
Windows. The library gives a time in 10 millisecond intervals since 1980. The
tool converts it as if it were a FILETIME, in 100 nanosecond intervals since 1601.
-/

namespace FsFat

namespace FileEntry

/-- What the functions for the three times have in common. The root directory
has no times. -/
def getTime (get : DirectoryEntry → UInt64) (fileEntry : FileEntry) : Option UInt64 :=
  fileEntry.directoryEntry.map get

/-- `libfsfat_file_entry_get_access_time`. -/
def getAccessTime : FileEntry → Option UInt64 := getTime (·.getAccessTime)

/-- `libfsfat_file_entry_get_creation_time`. -/
def getCreationTime : FileEntry → Option UInt64 := getTime (·.getCreationTime)

/-- `libfsfat_file_entry_get_modification_time`. -/
def getModificationTime : FileEntry → Option UInt64 := getTime (·.getModificationTime)

end FileEntry

namespace MountFileEntry

/-- The conversion from a FILETIME to nanoseconds since 1970. -/
def posixTime (filetime : UInt64) : Int64 :=
  if filetime ≠ 0 then (filetime.toInt64 - 116444736000000000) * 100 else 0

/-- What the functions for the three times have in common. Anything but the result 1 of the
library is an error. -/
def getTime (time : Option UInt64) : Except Error UInt64 :=
  match time with
  | none => .error .getFailed
  | some filetime => .ok (posixTime filetime).toUInt64

/-- `mount_file_entry_get_creation_time`. -/
def getCreationTime (fileEntry : FileEntry) : Except Error UInt64 :=
  getTime fileEntry.getCreationTime

/-- `mount_file_entry_get_access_time`. -/
def getAccessTime (fileEntry : FileEntry) : Except Error UInt64 :=
  getTime fileEntry.getAccessTime

/-- `mount_file_entry_get_modification_time`. -/
def getModificationTime (fileEntry : FileEntry) : Except Error UInt64 :=
  getTime fileEntry.getModificationTime

end MountFileEntry

/-- The microseconds since 1970 that `info_handle_fat_timestamp_value_fprint` prints. -/
def infoPosixTime (fatTimestamp : UInt64) : UInt64 := (fatTimestamp + 31553280000) * 10000

namespace MountFileEntry

/-- The nanoseconds from 1970-01-01 00:00:00 to a FAT timestamp. -/
def posixNanoseconds (fatTimestamp : UInt64) : Int :=
  315532800000000000 + 10000000 * fatTimestamp.toNat

/-- The conversion as the expression of the source has it, before it is a signed 64-bit value. -/
def posixProduct (filetime : UInt64) : Int :=
  (filetime.toInt64.toInt - 116444736000000000) * 100

/-- The conversion, when it is made, does not leave the signed 64-bit values. -/
def FitsInt64 (filetime : UInt64) : Prop :=
  filetime ≠ 0 → posixProduct filetime ∈ Set.Ico (-2 ^ 63) (2 ^ 63)

/-- The time of the mount tool is the moment of the timestamp, and no overflow was needed. -/
def IsPosixTimeOf (fatTimestamp : UInt64) (time : Except Error UInt64) : Prop :=
  FitsInt64 fatTimestamp ∧
    ∃ posix, time = .ok posix ∧ posix.toInt64.toInt = posixNanoseconds fatTimestamp

theorem toInt_toInt64 (time : UInt64) : time.toInt64.toInt = (time.toNat : Int).bmod (2 ^ 64) :=
  BitVec.toInt_eq_toNat_bmod time.toBitVec

theorem toInt_posixTime {filetime : UInt64} (h : filetime ≠ 0) :
    (posixTime filetime).toInt = (posixProduct filetime).bmod (2 ^ 64) := by
  rw [posixTime, if_pos h, Int64.toInt_mul, Int64.toInt_sub]
  exact Int.bmod_mul_bmod

theorem posixProduct_congr (filetime : UInt64) :
    (2 ^ 64 : Int) ∣ posixProduct filetime -
      ((filetime.toNat : Int) - 116444736000000000) * 100 := by
  have hcongr : (2 ^ 64 : Int) ∣ filetime.toInt64.toInt - filetime.toNat := by
    rw [toInt_toInt64]
    exact Int.dvd_bmod_sub_self
  unfold posixProduct
  omega

/-- A difference of 2^64 is not a multiple of 100 apart. -/
theorem not_dvd_difference {time : Int} (hpos : 0 ≤ time)
    (hlt : 315532800000000000 + 10000000 * time < 2 ^ 63) :
    ¬ (2 ^ 64 : Int) ∣ 9999900 * time + 11960006400000000000 := by
  rintro ⟨k, hk⟩
  have hkPos : 0 < k := by linarith
  have hkLt : k < 25 := by linarith
  have hproduct : (25 : Int) ∣ 2 ^ 64 * k := ⟨399996 * time + 478400256000000000, by linarith⟩
  have hmultiple : (25 : Int) ∣ k :=
    (Int.isCoprime_iff_gcd_eq_one.mpr (by norm_num)).dvd_of_dvd_mul_left hproduct
  exact not_le.mpr hkLt (Int.le_of_dvd hkPos hmultiple)

/-- No time is converted to the nanoseconds since 1970. -/
theorem posixTime_ne (filetime : UInt64) :
    (posixTime filetime).toInt ≠ posixNanoseconds filetime := by
  by_cases h : filetime = 0
  · subst h
    decide
  · intro heq
    have hcongr := posixProduct_congr filetime
    have hself : (2 ^ 64 : Int) ∣ (posixProduct filetime).bmod (2 ^ 64) - posixProduct filetime :=
      Int.dvd_bmod_sub_self
    have hlt := (posixTime filetime).toInt_lt
    rw [← toInt_posixTime h, heq] at hself
    rw [heq] at hlt
    have hsum : posixNanoseconds filetime - posixProduct filetime +
        (posixProduct filetime - ((filetime.toNat : Int) - 116444736000000000) * 100) =
          9999900 * filetime.toNat + 11960006400000000000 := by
      unfold posixNanoseconds
      ring
    have hdvd := dvd_add hself hcongr
    rw [hsum] at hdvd
    exact not_dvd_difference (Int.natCast_nonneg _) hlt hdvd

/-- The times of this library are far below the FILETIME of 1970. -/
theorem not_fitsInt64 {filetime : UInt64} (hne : filetime ≠ 0) (h : filetime.toNat < 2 ^ 54) :
    ¬ FitsInt64 filetime := by
  have htoInt : filetime.toInt64.toInt = filetime.toNat := by
    rw [toInt_toInt64, Int.bmod_eq_of_le] <;> omega
  intro hfits
  have hproduct := (hfits hne).1
  rw [posixProduct, htoInt] at hproduct
  omega

theorem not_fitsInt64_timestamp (moment : DateTime.CalendarTime) (fatTimeUtcOffset : UInt16) :
    ¬ FitsInt64 (moment.timestamp fatTimeUtcOffset) := by
  obtain ⟨hpos, hlt⟩ := moment.timestamp_bounds fatTimeUtcOffset
  apply not_fitsInt64
  · intro hzero
    rw [hzero] at hpos
    exact Nat.lt_irrefl 0 hpos
  · exact hlt.trans (by decide)

/-- The information tool converts the timestamps of the library. -/
theorem infoPosixTime_timestamp (moment : DateTime.CalendarTime) (fatTimeUtcOffset : UInt16) :
    1000 * ((infoPosixTime (moment.timestamp fatTimeUtcOffset)).toNat : Int) =
      posixNanoseconds (moment.timestamp fatTimeUtcOffset) := by
  have hlt := (moment.timestamp_bounds fatTimeUtcOffset).2
  rw [infoPosixTime, posixNanoseconds, UInt64.toNat_mul, UInt64.toNat_add]
  simp only [UInt64.reduceToNat]
  omega

theorem not_isPosixTimeOf_getTime (fatTimestamp : UInt64) (time : Option UInt64)
    (h : time = some fatTimestamp) : ¬ IsPosixTimeOf fatTimestamp (getTime time) := by
  rintro ⟨-, posix, hposix, heq⟩
  subst h
  obtain rfl := Except.ok.inj hposix
  rw [Int64.toInt64_toUInt64] at heq
  exact posixTime_ne fatTimestamp heq

/-- None of the three times that the mount tool gives is the time of the file entry, and for a
time that is in the calendar the conversion leaves the signed 64-bit values. -/
theorem mount_times_not_posix {fileEntry : FileEntry} {entry : DirectoryEntry}
    (hentry : fileEntry.directoryEntry = some entry) :
    ¬ IsPosixTimeOf entry.getCreationTime (getCreationTime fileEntry) ∧
      ¬ IsPosixTimeOf entry.getAccessTime (getAccessTime fileEntry) ∧
      ¬ IsPosixTimeOf entry.getModificationTime (getModificationTime fileEntry) ∧
      ∀ (moment : DateTime.CalendarTime) (fatTimeUtcOffset : UInt16),
        ¬ FitsInt64 (moment.timestamp fatTimeUtcOffset) := by
  have htime : ∀ get : DirectoryEntry → UInt64,
      ¬ IsPosixTimeOf (get entry) (getTime (fileEntry.getTime get)) := by
    intro get
    apply not_isPosixTimeOf_getTime
    rw [FileEntry.getTime, hentry]
    rfl
  exact ⟨htime _, htime _, htime _, not_fitsInt64_timestamp⟩

/-- The directory entry of a file that was made on 1980-01-01 at 00:00:00. -/
def firstDayEntry : DirectoryEntry := { DirectoryEntry.create with creationDate := 0x0021 }

def firstDayFileEntry : FileEntry := .create 0 (some firstDayEntry) none

theorem mount_times_not_posix_firstDay :
    ¬ IsPosixTimeOf firstDayEntry.getCreationTime (getCreationTime firstDayFileEntry) :=
  (mount_times_not_posix (rfl : firstDayFileEntry.directoryEntry = some firstDayEntry)).1

/-- The product is below the least signed 64-bit value, and is taken for a moment in 2185. -/
theorem firstDay_creation_time :
    firstDayEntry.getCreationTime = 276480000 ∧
      getCreationTime firstDayFileEntry = .ok 6802270501357551616 ∧
      posixNanoseconds 276480000 = 318297600000000000 ∧
      posixProduct 276480000 < -2 ^ 63 := by
  refine ⟨by decide +kernel, by decide +kernel, by decide +kernel, by decide +kernel⟩

end MountFileEntry

end FsFat
