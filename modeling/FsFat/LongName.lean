import FsFat.Directory

/-!
Long names: how a name of 16-bit units is split in segments of a fixed number
of units, and when the name that is put together from segments is the name
again. The segments are stored with padding behind the last one, which starts
with a zero unit.
-/

namespace FsFat

open DirectoryEntry DirectoryReadState

/-- A unit, least significant byte first. -/
def unitBytes (unit : UInt16) : List UInt8 := [unit.toUInt8, (unit >>> 8).toUInt8]

def nameBytes (name : List UInt16) : List UInt8 := name.flatMap unitBytes

/-- The first `count` segments of `size` units. -/
def firstSegments (size : Nat) : Nat → List UInt16 → List (List UInt16)
  | 0, _ => []
  | count + 1, name => name.take size :: firstSegments size count (name.drop size)

def numberOfSegments (size : Nat) (name : List UInt16) : Nat := (name.length + size - 1) / size

/-- The segments of a name, of which only the last one may be shorter. -/
def segmentsOf (size : Nat) (name : List UInt16) : List (List UInt16) :=
  firstSegments size (numberOfSegments size name) name

/-- The first bytes are the name data of the entry for the directory itself or
for its parent. -/
def HasDotName (nameData : List UInt8) : Prop :=
  nameData.take 11 = DirectoryReadState.selfName ∨ nameData.take 11 = DirectoryReadState.parentName

instance (nameData : List UInt8) : Decidable (HasDotName nameData) :=
  inferInstanceAs (Decidable (_ ∨ _))

@[simp] theorem length_nameBytes (name : List UInt16) :
    (nameBytes name).length = 2 * name.length := by
  induction name with
  | nil => rfl
  | cons unit name ih =>
    simp only [nameBytes, List.flatMap_cons, List.length_append, List.length_cons] at ih ⊢
    simp only [unitBytes, List.length_cons, List.length_nil]
    omega

theorem nameBytes_append (xs ys : List UInt16) :
    nameBytes (xs ++ ys) = nameBytes xs ++ nameBytes ys :=
  List.flatMap_append

theorem length_firstSegments (size count : Nat) (name : List UInt16) :
    (firstSegments size count name).length = count := by
  induction count generalizing name with
  | zero => rfl
  | succ count ih => simp [firstSegments, ih]

@[simp] theorem length_segmentsOf (size : Nat) (name : List UInt16) :
    (segmentsOf size name).length = numberOfSegments size name :=
  length_firstSegments _ _ _

theorem length_le_of_mem_firstSegments {size count : Nat} {name segment : List UInt16}
    (h : segment ∈ firstSegments size count name) : segment.length ≤ size := by
  induction count generalizing name with
  | zero => cases h
  | succ count ih =>
    rcases List.mem_cons.mp h with rfl | h
    · exact List.length_take_le _ _
    · exact ih h

/-- The number of segments is the least one for which they have room for the name. -/
theorem numberOfSegments_spec {size : Nat} (hsize : 0 < size) {name : List UInt16}
    (hname : 0 < name.length) :
    0 < numberOfSegments size name ∧ (numberOfSegments size name - 1) * size < name.length ∧
      name.length ≤ numberOfSegments size name * size := by
  have hdiv := Nat.div_add_mod (name.length + size - 1) size
  have hmod := Nat.mod_lt (name.length + size - 1) hsize
  have hpos : 0 < numberOfSegments size name := Nat.div_pos (by omega) hsize
  unfold numberOfSegments at hpos ⊢
  rw [Nat.mul_comm] at hdiv
  have hpred : ((name.length + size - 1) / size - 1) * size =
      (name.length + size - 1) / size * size - size := Nat.sub_one_mul _ _
  refine ⟨hpos, ?_, ?_⟩ <;> omega

/-! ### The name that is put together -/

theorem unitBytes_eq_zero {unit : UInt16} (h : unit.toUInt8 = 0 ∧ (unit >>> 8).toUInt8 = 0) :
    unit = 0 := by
  obtain ⟨hlow, hhigh⟩ := h
  apply UInt16.toNat_inj.mp
  have hlow' := congrArg UInt8.toNat hlow
  have hhigh' := congrArg UInt8.toNat hhigh
  have hlt := unit.toNat_lt
  simp only [UInt16.toNat_toUInt8, UInt16.toNat_shiftRight, UInt8.toNat_ofNat,
    UInt16.toNat_ofNat, Nat.shiftRight_eq_div_pow, Nat.reduceMod, Nat.reducePow] at hlow' hhigh' ⊢
  omega

theorem upToZeroUnit_nameBytes {units : List UInt16} (h : ∀ unit ∈ units, unit ≠ 0)
    (rest : List UInt8) :
    upToZeroUnit (nameBytes units ++ rest) = nameBytes units ++ upToZeroUnit rest := by
  induction units with
  | nil => rfl
  | cons unit units ih =>
    have hne : ¬ (unit.toUInt8 = 0 ∧ (unit >>> 8).toUInt8 = 0) := fun hzero =>
      h unit List.mem_cons_self (unitBytes_eq_zero hzero)
    have hrest := ih fun u hu => h u (List.mem_cons_of_mem _ hu)
    unfold nameBytes at hrest ⊢
    rw [List.flatMap_cons, List.append_assoc, unitBytes, List.cons_append, List.cons_append,
      List.nil_append, upToZeroUnit, if_neg hne, hrest]
    rfl

theorem upToZeroUnit_zero (rest : List UInt8) : upToZeroUnit (0 :: 0 :: rest) = [0, 0] := by
  simp [upToZeroUnit]

theorem length_upToZeroUnit_le (bytes : List UInt8) :
    (upToZeroUnit bytes).length ≤ bytes.length := by
  fun_induction upToZeroUnit bytes with
  | case1 => simp
  | case2 a b rest h ih => simpa using ih
  | case3 => simp

/-- The padding behind a segment: none behind a segment of full size, and a zero
unit first behind any other. -/
structure Pads (size : Nat) (padding : List UInt16 → List UInt8) : Prop where
  full : ∀ segment, segment.length = size → padding segment = []
  zero : ∀ segment, segment.length < size → ∃ rest, padding segment = 0 :: 0 :: rest

/-- The segments of a name, put together with their padding, are the name with
an end of string. -/
theorem upToZeroUnit_segments {size : Nat} {padding : List UInt16 → List UInt8}
    (hpads : Pads size padding) {count : Nat} {name : List UInt16}
    (hlower : (count - 1) * size < name.length ∨ count = 0) (hupper : name.length ≤ count * size)
    (h : ∀ unit ∈ name, unit ≠ 0) :
    upToZeroUnit ((firstSegments size count name).flatMap
      (fun segment => nameBytes segment ++ padding segment) ++ [0, 0]) =
        nameBytes name ++ [0, 0] := by
  induction count generalizing name with
  | zero =>
    rw [Nat.zero_mul] at hupper
    rw [List.eq_nil_of_length_eq_zero (Nat.le_zero.mp hupper)]
    rfl
  | succ count ih =>
    rw [firstSegments, List.flatMap_cons, List.append_assoc, List.append_assoc]
    have hmul := Nat.add_one_mul count size
    rw [Nat.add_sub_cancel] at hlower
    have htake : ∀ unit ∈ name.take size, unit ≠ 0 := fun u hu => h u (List.mem_of_mem_take hu)
    rw [upToZeroUnit_nameBytes htake]
    cases count with
    | zero =>
      rw [List.take_of_length_le (by omega)]
      congr 1
      rcases Nat.lt_or_eq_of_le (show name.length ≤ size by omega) with hlt | heq
      · obtain ⟨rest, hrest⟩ := hpads.zero name hlt
        rw [hrest]
        exact upToZeroUnit_zero _
      · rw [hpads.full name heq]
        rfl
    | succ count =>
      have hmul' := Nat.add_one_mul count size
      have hlength : (name.take size).length = size := by
        rw [List.length_take]
        omega
      have hlower' : (count + 1 - 1) * size < (name.drop size).length ∨ count + 1 = 0 := by
        rw [List.length_drop, Nat.add_sub_cancel]
        omega
      have hupper' : (name.drop size).length ≤ (count + 1) * size := by
        rw [List.length_drop]
        omega
      have hdrop := ih hlower' hupper' fun u hu => h u (List.mem_of_mem_drop hu)
      rw [hpads.full _ hlength, List.nil_append, hdrop, ← List.append_assoc, ← nameBytes_append,
        List.take_append_drop]

/-- Segments of a bounded size give a name of a bounded size. -/
theorem length_upToZeroUnit_flatten_le {segments : List (List UInt8)} {size : Nat}
    (h : ∀ segment ∈ segments, segment.length ≤ size) :
    (upToZeroUnit (segments.flatten ++ [0, 0])).length ≤ segments.length * size + 2 := by
  have hflatten : segments.flatten.length ≤ segments.length * size := by
    rw [List.length_flatten]
    have hsum := List.sum_le_card_nsmul (segments.map List.length) size (by
      intro length hlength
      obtain ⟨segment, hsegment, rfl⟩ := List.mem_map.mp hlength
      exact h segment hsegment)
    rwa [List.length_map, smul_eq_mul] at hsum
  have hle := length_upToZeroUnit_le (segments.flatten ++ [0, 0])
  rw [List.length_append] at hle
  simp only [List.length_cons, List.length_nil] at hle
  omega

theorem setNameFromSegments_eq_ok_iff {maximum : Nat} {segments : List (List UInt8)}
    {entry named : DirectoryEntry} :
    entry.setNameFromSegments maximum segments = .ok named ↔
      entry.name = none ∧ (0 < segments.length ∧ segments.length ≤ maximum) ∧
        named = { entry with
          name := some (upToZeroUnit (segments.flatten ++ [0, 0]))
          nameSize := (upToZeroUnit (segments.flatten ++ [0, 0])).length
          isUnicode := true } := by
  unfold setNameFromSegments
  split
  · next h =>
    rw [Option.isSome_iff_ne_none] at h
    simp [h]
  · next h =>
    rw [Option.not_isSome_iff_eq_none] at h
    split
    · next hlength =>
      constructor
      · intro hok
        cases hok
      · rintro ⟨_, hbounds, _⟩
        omega
    · next hlength =>
      have hbounds : 0 < segments.length ∧ segments.length ≤ maximum := by omega
      simp only [h, hbounds, Except.ok.injEq, true_and, and_self]
      exact eq_comm

/-! ### Entries that start as one of the two names -/

theorem hasDotName_append {name : List UInt8} (h : 11 ≤ name.length) (rest : List UInt8) :
    HasDotName (name ++ rest) ↔ HasDotName name := by
  unfold HasDotName
  rw [List.take_append_of_le_length h]

theorem not_hasDotName_create : ¬ HasDotName DirectoryEntry.create.nameData := by decide

/-- An entry that does not start as one of the two names goes by its type. -/
theorem processEntry_of_not_dotName {entry : DirectoryEntry} (h : ¬ HasDotName entry.nameData)
    (s : DirectoryReadState) (offset : Int) :
    s.processEntry entry offset =
      match entry.entryType with
      | .shortName =>
        if entry.fileAttributeFlags &&& fileAttributeFlagVolumeLabel ≠ 0 then
          s.setVolumeLabelEntry entry
        else s.addShortName entry offset
      | .vfatLongName => s.addVfatLongName entry
      | .exfatDataStream => s.addExfatDataStream entry
      | .exfatFileEntry => s.addExfatFileEntry entry offset
      | .exfatFileEntryName => s.addExfatFileEntryName entry
      | .exfatVolumeLabel => s.setVolumeLabelEntry entry
      | _ => .ok s := by
  unfold HasDotName at h
  rw [not_or] at h
  exact (if_neg h.1).trans (if_neg h.2)

/-- An entry that does start as one of them leaves the file entries as they are. -/
theorem processEntry_of_dotName {entry : DirectoryEntry} (h : HasDotName entry.nameData)
    {s s' : DirectoryReadState} {offset : Int} (hs : s.processEntry entry offset = .ok s') :
    s'.directory.fileEntries = s.directory.fileEntries ∧ s'.nameEntries = s.nameEntries ∧
      s'.currentFileEntry = s.currentFileEntry ∧
      s'.lastVfatSequenceNumber = s.lastVfatSequenceNumber := by
  unfold processEntry at hs
  split at hs
  · unfold setSelfEntry at hs
    split at hs
    · cases hs
    · injection hs with hs
      subst hs
      exact ⟨rfl, rfl, rfl, rfl⟩
  · next hself =>
    rw [if_pos (h.resolve_left hself)] at hs
    unfold setParentEntry at hs
    split at hs
    · cases hs
    · injection hs with hs
      subst hs
      exact ⟨rfl, rfl, rfl, rfl⟩

/-! ### A name of which the bytes start as the name of the directory itself -/

/-- The units 0x202e and five times 0x2020. -/
def dotUnits : List UInt16 := [0x202e, 0x2020, 0x2020, 0x2020, 0x2020, 0x2020]

theorem dotUnits_pos : 0 < dotUnits.length := by decide

theorem dotUnits_le : dotUnits.length ≤ 255 := by decide

theorem dotUnits_ne_zero : ∀ unit ∈ dotUnits, unit ≠ 0 := by simp [dotUnits]

end FsFat
