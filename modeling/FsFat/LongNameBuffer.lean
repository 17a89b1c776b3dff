import FsFat.LongName

/-!
The memory of a long name: what the function of `libfsfat_directory_entry.c` that puts a VFAT long
name together writes, byte range by byte range. The model of directories has the name itself; here
are the buffer, the copies into it and the loop that looks for its end.
-/

namespace FsFat

namespace DirectoryEntry

/-! ### The copies -/

/-- The buffer, the offset of the next copy and the ranges that were written, as their offset and
size. -/
structure NameBuffer where
  name : List UInt8
  nameOffset : Nat
  writes : List (Nat × Nat)

namespace NameBuffer

/-- The bytes are copied to the offset, and the offset is moved behind them. -/
def put (buffer : NameBuffer) (bytes : List UInt8) : NameBuffer where
  name := buffer.name.take buffer.nameOffset ++ bytes ++
    buffer.name.drop (buffer.nameOffset + bytes.length)
  nameOffset := buffer.nameOffset + bytes.length
  writes := buffer.writes ++ [(buffer.nameOffset, bytes.length)]

end NameBuffer

/-- The loop over the entries, from the last one on. -/
def copySegments (nameEntries : List (List UInt8)) : Nat → NameBuffer → NameBuffer
  | 0, buffer => buffer
  | entryIndex + 1, buffer =>
    copySegments nameEntries entryIndex (buffer.put (field (nameEntries.getD entryIndex []) 0 26))

/-- The loop that looks for a zero unit, with `count` iterations at most. -/
def terminatedSize (name : List UInt8) (nameSize : Nat) : Nat → Nat → Nat
  | 0, nameOffset => nameOffset
  | count + 1, nameOffset =>
    if nameOffset + 1 < nameSize then
      if name.getD nameOffset 0 = 0 ∧ name.getD (nameOffset + 1) 0 = 0 then nameOffset + 2
      else terminatedSize name nameSize count (nameOffset + 2)
    else nameOffset

/-- What is left of the call: the buffer, the name size and the ranges that were written. -/
structure WrittenName where
  name : List UInt8
  nameSize : Nat
  writes : List (Nat × Nat)

/-- `libfsfat_directory_entry_get_name_from_vfat_long_file_name_entries`, with its memory. -/
def writeNameFromVfatLongFileNameEntries (freshMemory : Nat → UInt8) (entry : DirectoryEntry)
    (nameEntries : List (List UInt8)) : Except Error WrittenName :=
  if entry.name.isSome then .error .nameAlreadySet
  else if nameEntries.length = 0 ∨ nameEntries.length > 20 then
    .error .numberOfNameEntriesOutOfBounds
  else
    let nameSize := (10 + 12 + 4) * nameEntries.length + 2
    let buffer := copySegments nameEntries nameEntries.length
      ⟨(List.range nameSize).map freshMemory, 0, []⟩
    let buffer := (buffer.put [0]).put [0]
    .ok ⟨buffer.name, terminatedSize buffer.name nameSize nameSize 0, buffer.writes⟩

/-! ### The buffer after the copies -/

/-- The part of the buffer in front of the offset is written, and nothing behind its end. -/
structure NameBuffer.Holds (buffer : NameBuffer) (size : Nat) (written : List UInt8) : Prop where
  offset : buffer.nameOffset = written.length
  name : ∃ rest, buffer.name = written ++ rest ∧ written.length + rest.length = size
  writes : ∀ write ∈ buffer.writes, write.1 + write.2 ≤ size

theorem NameBuffer.Holds.put {buffer : NameBuffer} {size : Nat} {written bytes : List UInt8}
    (h : buffer.Holds size written) (hroom : written.length + bytes.length ≤ size) :
    (buffer.put bytes).Holds size (written ++ bytes) := by
  obtain ⟨rest, hname, hsize⟩ := h.name
  refine ⟨?_, ⟨rest.drop bytes.length, ?_, ?_⟩, ?_⟩
  · rw [NameBuffer.put, h.offset, List.length_append]
  · rw [NameBuffer.put, h.offset, hname, List.take_left, List.drop_length_add_append]
  · rw [List.length_append, List.length_drop]
    omega
  · intro write hwrite
    rcases List.mem_append.mp hwrite with hwrite | hwrite
    · exact h.writes write hwrite
    · rw [List.mem_singleton.mp hwrite, h.offset]
      exact hroom

theorem NameBuffer.Holds.name_eq {buffer : NameBuffer} {size : Nat} {written : List UInt8}
    (h : buffer.Holds size written) (hfull : written.length = size) : buffer.name = written := by
  obtain ⟨rest, hname, hsize⟩ := h.name
  have hrest : rest = [] := List.eq_nil_of_length_eq_zero (by omega)
  rw [hname, hrest, List.append_nil]

/-- The segments of the first entries, from the last one on. -/
def segmentsDown (nameEntries : List (List UInt8)) (count : Nat) : List (List UInt8) :=
  (nameEntries.take count).reverse.map (·.take 26)

theorem segmentsDown_succ {nameEntries : List (List UInt8)} {count : Nat}
    (h : count < nameEntries.length) :
    segmentsDown nameEntries (count + 1) =
      field (nameEntries.getD count []) 0 26 :: segmentsDown nameEntries count := by
  rw [segmentsDown, List.take_succ_eq_append_getElem h, List.reverse_append,
    List.getD_eq_getElem _ _ h]
  rfl

/-- The loop writes the segments one behind the other. -/
theorem copySegments_holds {nameEntries : List (List UInt8)}
    (hlength : ∀ nameData ∈ nameEntries, nameData.length = 32) {size count : Nat}
    (hcount : count ≤ nameEntries.length) {buffer : NameBuffer} {written : List UInt8}
    (h : buffer.Holds size written) (hroom : written.length + 26 * count ≤ size) :
    (copySegments nameEntries count buffer).Holds size
      (written ++ (segmentsDown nameEntries count).flatten) := by
  induction count generalizing buffer written with
  | zero =>
    rw [copySegments, segmentsDown, List.take_zero, List.reverse_nil, List.map_nil,
      List.flatten_nil, List.append_nil]
    exact h
  | succ count ih =>
    have hlt : count < nameEntries.length := hcount
    have hsegment : (field (nameEntries.getD count []) 0 26).length = 26 := by
      have hdata := hlength _ (List.getElem_mem hlt)
      rw [field, List.drop_zero, List.length_take, List.getD_eq_getElem _ _ hlt, hdata]
      rfl
    have hput : (buffer.put (field (nameEntries.getD count []) 0 26)).Holds size
        (written ++ field (nameEntries.getD count []) 0 26) := h.put (by rw [hsegment]; omega)
    have hnext := ih (Nat.le_of_lt hlt) hput (by rw [List.length_append, hsegment]; omega)
    rw [copySegments, segmentsDown_succ hlt, List.flatten_cons, ← List.append_assoc]
    exact hnext

theorem length_flatten_segmentsDown {nameEntries : List (List UInt8)}
    (hlength : ∀ nameData ∈ nameEntries, nameData.length = 32) :
    (segmentsDown nameEntries nameEntries.length).flatten.length = 26 * nameEntries.length := by
  rw [segmentsDown, List.take_length, List.length_flatten]
  have hsegments : ∀ size ∈ ((nameEntries.reverse.map (·.take 26)).map List.length), size = 26 := by
    intro size hsize
    obtain ⟨segment, hsegment, rfl⟩ := List.mem_map.mp hsize
    obtain ⟨nameData, hmem, rfl⟩ := List.mem_map.mp hsegment
    rw [List.length_take, hlength nameData (List.mem_reverse.mp hmem)]
    rfl
  rw [List.sum_eq_card_nsmul _ 26 hsegments, List.length_map, List.length_map,
    List.length_reverse, smul_eq_mul, Nat.mul_comm]

/-- The buffer behind the last copy has the segments and two zero bytes. -/
theorem copied_holds (freshMemory : Nat → UInt8) {nameEntries : List (List UInt8)}
    (hlength : ∀ nameData ∈ nameEntries, nameData.length = 32) :
    (((copySegments nameEntries nameEntries.length
        ⟨(List.range (26 * nameEntries.length + 2)).map freshMemory, 0, []⟩).put [0]).put
          [0]).Holds (26 * nameEntries.length + 2)
      ((segmentsDown nameEntries nameEntries.length).flatten ++ [0, 0]) := by
  have hflatten := length_flatten_segmentsDown hlength
  have hnew : NameBuffer.Holds ⟨(List.range (26 * nameEntries.length + 2)).map freshMemory, 0, []⟩
      (26 * nameEntries.length + 2) [] :=
    ⟨rfl, ⟨_, rfl, by simp⟩, fun write hwrite => absurd hwrite List.not_mem_nil⟩
  have hcopied := copySegments_holds hlength (Nat.le_refl _) hnew
    (by rw [List.length_nil]; omega)
  rw [List.nil_append] at hcopied
  have hzero := hcopied.put (show _ + [(0 : UInt8)].length ≤ _ by
    rw [hflatten, List.length_singleton]; omega)
  have hholds := hzero.put (show _ + [(0 : UInt8)].length ≤ _ by
    rw [List.length_append, hflatten, List.length_singleton])
  rw [List.append_assoc] at hholds
  exact hholds

/-! ### The end of the name -/

/-- The loop finds the end of the string that begins at an even offset. -/
theorem terminatedSize_eq {name : List UInt8} {nameSize : Nat} (hsize : name.length = nameSize)
    {count nameOffset : Nat} (hcount : nameSize ≤ nameOffset + 2 * count)
    (hoffset : nameOffset ≤ nameSize) :
    terminatedSize name nameSize count nameOffset =
      nameOffset + (upToZeroUnit (name.drop nameOffset)).length := by
  induction count generalizing nameOffset with
  | zero =>
    rw [terminatedSize, List.drop_eq_nil_of_le (by omega)]
    rfl
  | succ count ih =>
    rw [terminatedSize]
    by_cases hlt : nameOffset + 1 < nameSize
    · have hfirst := List.getD_eq_getElem name 0 (show nameOffset < name.length by omega)
      have hsecond := List.getD_eq_getElem name 0 (show nameOffset + 1 < name.length by omega)
      rw [if_pos hlt, List.drop_eq_getElem_cons (by omega), List.drop_eq_getElem_cons (by omega),
        upToZeroUnit, ← hfirst, ← hsecond]
      split
      · rfl
      · have hdrop : name.drop (nameOffset + 1 + 1) = name.drop (nameOffset + 2) := rfl
        rw [ih (by omega) (by omega), List.length_cons, List.length_cons, hdrop]
        omega
    · have hrest : upToZeroUnit (name.drop nameOffset) = [] := by
        rcases Nat.lt_or_ge nameOffset name.length with hlast | hend
        · rw [List.drop_eq_getElem_cons hlast, List.drop_eq_nil_of_le (by omega), upToZeroUnit]
          intro a b rest heq
          cases heq
        · rw [List.drop_eq_nil_of_le hend]
          rfl
      rw [if_neg hlt, hrest]
      rfl

/-- The string of whole units with an end of string behind them is whole units and an end of
string, and the first part of the units. -/
theorem upToZeroUnit_append_zeros {units : List UInt8} (h : units.length % 2 = 0) :
    ∃ first, upToZeroUnit (units ++ [0, 0]) = first ++ [0, 0] ∧ first.length % 2 = 0 ∧
      first.length ≤ units.length ∧ first ++ [0, 0] <+: units ++ [0, 0] := by
  induction units using List.twoStepInduction with
  | nil => exact ⟨[], rfl, rfl, Nat.le_refl 0, List.prefix_rfl⟩
  | singleton a => cases h
  | cons_cons a b units ih _ =>
    simp only [List.length_cons] at h ⊢
    rw [List.cons_append, List.cons_append, upToZeroUnit]
    split
    · next hzero =>
      obtain ⟨rfl, rfl⟩ := hzero
      exact ⟨[], rfl, rfl, Nat.zero_le _, List.prefix_append [0, 0] _⟩
    · obtain ⟨first, heq, heven, hle, hpart⟩ := ih (by omega)
      refine ⟨a :: b :: first, by rw [heq]; rfl, ?_, ?_, ?_⟩
      · rw [List.length_cons, List.length_cons]
        omega
      · rw [List.length_cons, List.length_cons]
        omega
      · exact List.cons_prefix_cons.mpr ⟨rfl, List.cons_prefix_cons.mpr ⟨rfl, hpart⟩⟩

/-! ### The call -/

/-- What the call does for a number of entries: its writes are inside the buffer that is allocated
for them, the name ends with a zero unit inside it, and is the name of the model of directories. -/
structure StaysInBuffer (entry : DirectoryEntry) (nameEntries : List (List UInt8))
    (written : WrittenName) : Prop where
  length : written.name.length = 26 * nameEntries.length + 2
  writes : ∀ write ∈ written.writes, write.1 + write.2 ≤ 26 * nameEntries.length + 2
  even : written.nameSize % 2 = 0
  size : 2 ≤ written.nameSize ∧ written.nameSize ≤ 26 * nameEntries.length + 2
  zero : written.name[written.nameSize - 2]? = some 0 ∧ written.name[written.nameSize - 1]? = some 0
  named : entry.getNameFromVfatLongFileNameEntries nameEntries =
    .ok { entry with
      name := some (written.name.take written.nameSize)
      nameSize := written.nameSize
      isUnicode := true }

theorem getElem?_zeroUnit (first rest : List UInt8) :
    (first ++ [0, 0] ++ rest)[first.length + 2 - 2]? = some 0 ∧
      (first ++ [0, 0] ++ rest)[first.length + 2 - 1]? = some 0 := by
  rw [List.append_assoc]
  constructor
  · rw [Nat.add_sub_cancel, List.getElem?_append_right (Nat.le_refl _), Nat.sub_self]
    rfl
  · rw [List.getElem?_append_right (by omega), show first.length + 2 - 1 - first.length = 1
      by omega]
    rfl

/-- A call for one to twenty entries returns and stays inside its buffer. -/
theorem writeName_staysInBuffer (freshMemory : Nat → UInt8) {entry : DirectoryEntry}
    (hname : entry.name = none) {nameEntries : List (List UInt8)}
    (hlength : ∀ nameData ∈ nameEntries, nameData.length = 32)
    (hcount : 0 < nameEntries.length ∧ nameEntries.length ≤ 20) :
    ∃ written, entry.writeNameFromVfatLongFileNameEntries freshMemory nameEntries = .ok written ∧
      StaysInBuffer entry nameEntries written := by
  have hflatten := length_flatten_segmentsDown hlength
  have hholds := copied_holds freshMemory hlength
  generalize hunits : (segmentsDown nameEntries nameEntries.length).flatten = units
    at hflatten hholds
  generalize hbuffer : NameBuffer.put (NameBuffer.put _ [0]) [0] = buffer at hholds
  obtain ⟨first, hfirst, heven, hle, rest, hrest⟩ :=
    upToZeroUnit_append_zeros (show units.length % 2 = 0 by omega)
  have hfull : (units ++ [0, 0]).length = 26 * nameEntries.length + 2 := by
    rw [List.length_append, hflatten]
    rfl
  have hname' := hholds.name_eq hfull
  have hbufferLength : buffer.name.length = 26 * nameEntries.length + 2 := by rw [hname', hfull]
  have hfirstLength : (first ++ [0, 0]).length = first.length + 2 := List.length_append
  have hterminated : terminatedSize buffer.name (26 * nameEntries.length + 2)
      (26 * nameEntries.length + 2) 0 = first.length + 2 := by
    rw [terminatedSize_eq hbufferLength (by omega) (by omega), List.drop_zero, hname', hfirst,
      hfirstLength, Nat.zero_add]
  refine ⟨⟨buffer.name, first.length + 2, buffer.writes⟩, ?_, ?_⟩
  · rw [writeNameFromVfatLongFileNameEntries, if_neg (by simp [hname]), if_neg (by omega)]
    simp only [Nat.reduceAdd, hbuffer, hterminated]
  · have hpart : buffer.name = first ++ [0, 0] ++ rest := by rw [hname', hrest]
    refine ⟨hbufferLength, hholds.writes, by dsimp only; omega, by dsimp only; omega, ?_, ?_⟩
    · dsimp only
      rw [hpart]
      exact getElem?_zeroUnit first rest
    · have htake : buffer.name.take (first.length + 2) = first ++ [0, 0] := by
        rw [hpart, ← hfirstLength, List.take_left]
      have hsegments : (nameEntries.reverse.map (·.take 26)).flatten = units := by
        rw [← hunits, segmentsDown, List.take_length]
      refine setNameFromSegments_eq_ok_iff.mpr ⟨hname, ?_, ?_⟩
      · rwa [List.length_map, List.length_reverse]
      · rw [hsegments, hfirst, hfirstLength]
        dsimp only
        rw [htake]

end DirectoryEntry

end FsFat
