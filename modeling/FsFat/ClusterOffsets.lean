import FsFat.BootRecord
import FsFat.ClusterChain

/-!
The offsets of the clusters that a format has, against those that the boot record
says. The offset is computed in 64 bits, and the checks of `libfsfat_boot_record.c`
let the cluster blocks of exFAT become so large that it wraps.
-/

namespace FsFat

namespace BootRecord

variable {data : List UInt8} {bootRecord : BootRecord}

/-- Only the cluster blocks of exFAT are larger than 128 sectors. -/
theorem readData_clusterBlockSize (h : readData data = .ok bootRecord) :
    bootRecord.fileSystemFormat = .exfat ∨
      bootRecord.fileSystemFormat ≠ .exfat ∧ bootRecord.clusterBlockSize ≤ 2 ^ 19 := by
  unfold readData at h
  split_ifs at h
  · simp only [readExfatData] at h
    split_ifs at h
    injection h with h
    subst h
    exact .inl rfl
  · unfold ofFatFields at h
    split at h
    · cases h
    next hbytes =>
    split at h
    · cases h
    next hsectors =>
    injection h with h
    subst h
    obtain ⟨k, _, hk, hbytes⟩ := two_pow_of_mem (not_not.mp hbytes)
    obtain ⟨m, hm, hsectors⟩ := two_pow_of_mem_sectors (not_not.mp hsectors)
    refine .inr ⟨(fatFormat_ne _).2, ?_⟩
    dsimp only
    rw [hsectors, hbytes, ← pow_add]
    exact Nat.pow_le_pow_right (by decide) (by omega)

theorem lastClusterNumber_le {format : FileSystemFormat} {last : Nat}
    (h : lastClusterNumber format = .ok last) : last ≤ 0xfffffff0 := by
  cases format <;> cases h <;> decide

/-- The offsets of all clusters that the format has are those that the boot record says. -/
def OffsetsAreExact (ioHandle : IoHandle) : Prop :=
  ∀ last, lastClusterNumber ioHandle.fileSystemFormat = .ok last →
    (∀ c, 2 ≤ c → c < last →
      clusterOffset ioHandle c = clusterStart ioHandle c ∧ 0 ≤ clusterOffset ioHandle c) ∧
    ∀ c d, 2 ≤ c → c < last → 2 ≤ d → d < last →
      clusterOffset ioHandle c = clusterOffset ioHandle d → c = d

/-- A cluster whose start is not a signed 64-bit value does not have it as its offset. -/
theorem clusterOffset_ne {ioHandle : IoHandle} {c : Nat}
    (h : 2 ^ 63 ≤ clusterStart ioHandle c) : clusterOffset ioHandle c ≠ clusterStart ioHandle c := by
  have hlt : clusterOffset ioHandle c < 2 ^ 63 := Int.bmod_lt (by decide)
  intro heq
  omega

theorem clusterStart_inj {ioHandle : IoHandle} (hsize : 0 < ioHandle.clusterBlockSize) {c d : Nat}
    (h : clusterStart ioHandle c = clusterStart ioHandle d) : c = d := by
  unfold clusterStart at h
  have hmul : ((c : Int) - 2) * ioHandle.clusterBlockSize =
      ((d : Int) - 2) * ioHandle.clusterBlockSize := by omega
  have hsub := Int.eq_of_mul_eq_mul_right (by omega) hmul
  omega

/-- The offsets are exact when the start of the last cluster is a signed 64-bit value. -/
theorem offsetsAreExact_of_lt {ioHandle : IoHandle} (hfirst : 0 ≤ ioHandle.firstClusterOffset)
    (hsize : 0 < ioHandle.clusterBlockSize)
    (hmax : ioHandle.firstClusterOffset + (2 ^ 32 - 19) * ioHandle.clusterBlockSize < 2 ^ 63) :
    OffsetsAreExact ioHandle := by
  intro last hlast
  have hle := lastClusterNumber_le hlast
  have hexact : ∀ c, 2 ≤ c → c < last →
      clusterOffset ioHandle c = clusterStart ioHandle c ∧ 0 ≤ clusterOffset ioHandle c := by
    intro c h2 hc
    have hnonneg : 0 ≤ ((c : Int) - 2) * ioHandle.clusterBlockSize :=
      mul_nonneg (by omega) (by omega)
    have hmul : ((c : Int) - 2) * ioHandle.clusterBlockSize ≤
        (2 ^ 32 - 19) * ioHandle.clusterBlockSize :=
      mul_le_mul_of_nonneg_right (by omega) (by omega)
    have hmaxValue : (int64Max : Int) = 9223372036854775807 := rfl
    have heq : clusterOffset ioHandle c = clusterStart ioHandle c := by
      unfold clusterOffset clusterStart
      rw [Int.emod_eq_of_lt (by omega) (by omega)]
      exact toOff64_of_nonneg (by omega) (by omega)
    refine ⟨heq, ?_⟩
    rw [heq, clusterStart]
    omega
  refine ⟨hexact, ?_⟩
  intro c d hc hclast hd hdlast heq
  rw [(hexact c hc hclast).1, (hexact d hd hdlast).1] at heq
  exact clusterStart_inj hsize heq

/-- The start of the last cluster that exFAT has is not in front of 2^63. -/
theorem clusterStart_last_ge {ioHandle : IoHandle} (hfirst : 0 ≤ ioHandle.firstClusterOffset)
    {k : Nat} (hk : ioHandle.clusterBlockSize = 2 ^ k)
    (hlarge : 2 ^ 30 < ioHandle.clusterBlockSize)
    (hfar : ioHandle.clusterBlockSize = 2 ^ 31 → 19 * 2 ^ 31 ≤ ioHandle.firstClusterOffset) :
    2 ^ 63 ≤ clusterStart ioHandle 0xffffffef := by
  have hmin : 31 ≤ k := by
    by_contra hlt
    have hle : 2 ^ k ≤ 2 ^ 30 := Nat.pow_le_pow_right (by decide) (by omega)
    omega
  unfold clusterStart
  rcases hmin.eq_or_lt with rfl | hgt
  · have hfirst := hfar hk
    rw [hk]
    push_cast
    omega
  · have hge : 2 ^ 32 ≤ ioHandle.clusterBlockSize := by
      rw [hk]
      exact Nat.pow_le_pow_right (by decide) hgt
    push_cast
    omega

/-- The offsets of an accepted boot record are exact if and only if the cluster blocks have at
most 2^30 bytes, or 2^31 bytes with the first of them in front of 19 such blocks. -/
theorem offsetsAreExact_iff (h : readData data = .ok bootRecord) (volumeSize : Nat) :
    OffsetsAreExact (bootRecord.ioHandle volumeSize) ↔
      bootRecord.clusterBlockSize ≤ 2 ^ 30 ∨
        bootRecord.clusterBlockSize = 2 ^ 31 ∧ bootRecord.firstClusterOffset < 19 * 2 ^ 31 := by
  obtain ⟨k, -, -, hk⟩ := (readData_isAccepted h).clusterBlockSize
  obtain ⟨-, ⟨hfirst, hfirstMax⟩, -⟩ := readData_offsets h
  have hsize : (bootRecord.ioHandle volumeSize).clusterBlockSize =
      bootRecord.clusterBlockSize := rfl
  have hoffset : (bootRecord.ioHandle volumeSize).firstClusterOffset =
      bootRecord.firstClusterOffset := rfl
  constructor
  · intro hexact
    by_contra hcond
    have hformat := (readData_clusterBlockSize h).resolve_right fun hfat => by omega
    have hlast : lastClusterNumber (bootRecord.ioHandle volumeSize).fileSystemFormat =
        .ok 0xfffffff0 := congrArg lastClusterNumber hformat
    have hstart : 2 ^ 63 ≤ clusterStart (bootRecord.ioHandle volumeSize) 0xffffffef :=
      clusterStart_last_ge hfirst hk (by omega) (by omega)
    apply clusterOffset_ne hstart
    exact ((hexact _ hlast).1 0xffffffef (by decide) (by decide)).1
  · intro hcond
    have hpos : 0 < bootRecord.clusterBlockSize := by
      rw [hk]
      exact Nat.pow_pos (by decide)
    apply offsetsAreExact_of_lt hfirst hpos
    rw [hsize, hoffset]
    omega

/-- The boot record of an exFAT volume with cluster blocks of 2^37 bytes. -/
def largeBlocksBootSector : List UInt8 :=
  [0, 0, 0] ++ exfatOemName ++ List.replicate 69 0 ++
    [1, 0, 0, 0] ++ [1, 0, 0, 0] ++ [2, 0, 0, 0] ++ [4, 0, 0, 0] ++ [2, 0, 0, 0] ++
    List.replicate 8 0 ++ [12, 25] ++ List.replicate 400 0 ++ [0x55, 0xaa]

def largeBlocksBootRecord : BootRecord where
  fileSystemFormat := .exfat
  bytesPerSector := 4096
  clusterBlockSize := 2 ^ 37
  totalNumberOfClusters := 4
  volumeSerialNumber := 0
  allocationTableOffset := 4096
  allocationTableSize := 4096
  rootDirectoryCluster := 2
  rootDirectoryOffset := 0
  rootDirectorySize := 0
  firstClusterOffset := 8192

theorem offsetsAreExact_iff_exfatBootSector :
    OffsetsAreExact (exfatBootRecord.ioHandle 4096) ↔
      exfatBootRecord.clusterBlockSize ≤ 2 ^ 30 ∨
        exfatBootRecord.clusterBlockSize = 2 ^ 31 ∧
          exfatBootRecord.firstClusterOffset < 19 * 2 ^ 31 :=
  offsetsAreExact_iff readData_exfatBootSector 4096

/-- Clusters 2 and 2^27 + 2 of this volume have one offset, and that of cluster 2^26 + 2 is
negative. -/
theorem offsets_wrap :
    readData largeBlocksBootSector = .ok largeBlocksBootRecord ∧
      clusterOffset (largeBlocksBootRecord.ioHandle 0) (2 ^ 27 + 2) =
        clusterOffset (largeBlocksBootRecord.ioHandle 0) 2 ∧
      clusterOffset (largeBlocksBootRecord.ioHandle 0) (2 ^ 26 + 2) < 0 := by
  decide +kernel

end BootRecord

end FsFat
