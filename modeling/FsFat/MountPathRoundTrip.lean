import FsFat.MountFileSystem

/-!
Names that the mount tool writes into a path and reads back: `mount_path_string.c`.
Every name comes back behind a separator of the library, and what the two loops
write stays inside the buffers that are allocated for it.
-/

namespace FsFat

namespace MountPathString

variable {una : MountLibUna}

/-! ### The states of the loops -/

/-- The loop of `mount_path_string_copy_from_file_entry_path` comes to an index with this path. -/
inductive CopiesFrom (una : MountLibUna) (fileEntryPath : List UInt8) (pathSize : Nat) :
    Nat → List UInt8 → Prop where
  | start : CopiesFrom una fileEntryPath pathSize 0 []
  | next {index next character : Nat} {path written : List UInt8} :
      CopiesFrom una fileEntryPath pathSize index path → index < fileEntryPath.length →
      una.copyFromUtf8 fileEntryPath index = .ok (character, next) → character ≠ 0 →
      escape una (pathSize - path.length) character = .ok written →
      CopiesFrom una fileEntryPath pathSize next (path ++ written)

/-- The loop of `mount_path_string_copy_to_file_entry_path` comes to an index with this file
entry path. -/
inductive CopiesTo (una : MountLibUna) (path : List UInt8) (fileEntryPathSize : Nat) :
    Nat → List UInt8 → Prop where
  | start : CopiesTo una path fileEntryPathSize 0 []
  | next {index next character : Nat} {fileEntryPath written : List UInt8} :
      CopiesTo una path fileEntryPathSize index fileEntryPath → index < path.length →
      copyPathCharacter una path index = .ok (character, next) →
      una.copyToUtf8 character (fileEntryPathSize - fileEntryPath.length) = .ok written →
      CopiesTo una path fileEntryPathSize next (fileEntryPath ++ written)

/-- Every path that the loop writes leaves room for an end of string character, which `sprintf`
puts behind an escape sequence. -/
def FromStaysInside (una : MountLibUna) (fileEntryPath : List UInt8) : Prop :=
  ∀ index path, CopiesFrom una fileEntryPath (fileEntryPath.length * 10 + 1) index path →
    path.length + 1 ≤ fileEntryPath.length * 10 + 1

def ToStaysInside (una : MountLibUna) (path : List UInt8) : Prop :=
  ∀ index fileEntryPath, CopiesTo una path (path.length + 1) index fileEntryPath →
    fileEntryPath.length + 1 ≤ path.length + 1

/-- The result of the loop is one of its states. -/
theorem copiesFrom_of_copyFromCharacters {fileEntryPath : List UInt8} {pathSize count index : Nat}
    {path result : List UInt8} (hstate : CopiesFrom una fileEntryPath pathSize index path)
    (h : copyFromCharacters una fileEntryPath pathSize count index path = .ok result) :
    ∃ last, CopiesFrom una fileEntryPath pathSize last result := by
  induction count generalizing index path with
  | zero => cases h
  | succ count ih =>
    rw [copyFromCharacters] at h
    split at h
    · rename_i hlt
      obtain ⟨⟨character, next⟩, hcopy, h⟩ := bind_eq_ok_iff.mp h
      by_cases hzero : character = 0
      · simp only [hzero, if_true] at h
        exact ⟨index, Except.ok.inj h ▸ hstate⟩
      · simp only [if_neg hzero] at h
        obtain ⟨written, hwritten, h⟩ := bind_eq_ok_iff.mp h
        exact ih (.next hstate hlt hcopy hzero hwritten) h
    · exact ⟨index, Except.ok.inj h ▸ hstate⟩

theorem copiesTo_of_copyToCharacters {path : List UInt8} {fileEntryPathSize count index : Nat}
    {fileEntryPath result : List UInt8}
    (hstate : CopiesTo una path fileEntryPathSize index fileEntryPath)
    (h : copyToCharacters una path fileEntryPathSize count index fileEntryPath = .ok result) :
    ∃ last, CopiesTo una path fileEntryPathSize last result := by
  induction count generalizing index fileEntryPath with
  | zero => cases h
  | succ count ih =>
    rw [copyToCharacters] at h
    split at h
    · rename_i hlt
      obtain ⟨⟨character, next⟩, hcopy, h⟩ := bind_eq_ok_iff.mp h
      obtain ⟨written, hwritten, h⟩ := bind_eq_ok_iff.mp h
      exact ih (.next hstate hlt hcopy hwritten) h
    · exact ⟨index, Except.ok.inj h ▸ hstate⟩

/-- The states of the loop over a string: a part of it is copied, ten bytes for each at most. -/
theorem CopiesFrom.exists_split (huna : una.IsUnicode) {s : List Char} {index : Nat}
    {path : List UInt8}
    (h : CopiesFrom una (utf8.encode s) ((utf8.encode s).length * 10 + 1) index path) :
    ∃ first rest, s = first ++ rest ∧ index = (utf8.encode first).length ∧
      path.length ≤ 10 * (utf8.encode first).length := by
  induction h with
  | start => exact ⟨[], s, rfl, rfl, Nat.le_refl 0⟩
  | @next index next character path written _ hlt hcopy _ hwritten ih =>
    obtain ⟨first, rest, hs, hindex, hpath⟩ := ih
    subst hindex
    rw [hs] at hlt hcopy
    obtain ⟨c, rest, rfl⟩ :=
      List.exists_cons_of_ne_nil ((utf8.length_encode_lt_iff first rest).mp hlt)
    obtain ⟨rfl, rfl⟩ := Prod.mk.inj (Except.ok.inj (hcopy.symm.trans (huna.reads first c rest)))
    have hlength : (utf8.encode s).length = (utf8.encode first).length +
        ((utf8.encodeSymbol c).length + (utf8.encode rest).length) := by
      rw [hs, Encoding.encode_append, List.length_append, Encoding.encode_cons, List.length_append]
    have hescape := escape_encode huna c
      (show 10 * (utf8.encodeSymbol c).length ≤
        (utf8.encode s).length * 10 + 1 - path.length by omega)
    obtain rfl := Except.ok.inj (hwritten.symm.trans hescape)
    have hle := length_encode_escaped_le c
    refine ⟨first ++ [c], rest, ?_, rfl, ?_⟩
    · rw [hs, List.append_assoc, List.singleton_append]
    · rw [List.length_append, utf8.length_encode_concat]
      omega

theorem fromStaysInside (huna : una.IsUnicode) (s : List Char) :
    FromStaysInside una (utf8.encode s) := by
  intro index path h
  obtain ⟨first, rest, rfl, -, hpath⟩ := h.exists_split huna
  rw [Encoding.encode_append, List.length_append]
  omega

/-- The states of the loop over a path: what is copied is what a part of the path stands for. -/
theorem CopiesTo.exists_split (huna : una.IsUnicode) {s t : List Char} (hst : Unescapes s t)
    {index : Nat} {fileEntryPath : List UInt8}
    (h : CopiesTo una (utf8.encode s) ((utf8.encode s).length + 1) index fileEntryPath) :
    ∃ first rest t', s = first ++ rest ∧ Unescapes rest t' ∧
      index = (utf8.encode first).length ∧ fileEntryPath.length ≤ (utf8.encode first).length := by
  induction h with
  | start => exact ⟨[], s, t, rfl, hst, rfl, Nat.le_refl 0⟩
  | @next index next character path written _ hlt hcopy hwritten ih =>
    obtain ⟨first, rest, t', hs, hrest, hindex, hpath⟩ := ih
    subst hindex
    rw [hs] at hlt hcopy
    cases hrest with
    | nil => exact absurd rfl ((utf8.length_encode_lt_iff first []).mp hlt)
    | @cons c part rest t' hpart hrest =>
      rw [← List.append_assoc] at hcopy hs
      obtain ⟨rfl, rfl⟩ := Prod.mk.inj
        (Except.ok.inj (hcopy.symm.trans (copyPathCharacter_encode huna hpart first rest)))
      have hlength : (utf8.encode s).length = (utf8.encode first).length +
          (utf8.encode part).length + (utf8.encode rest).length := by
        simp only [hs, Encoding.encode_append, List.length_append]
      have hle := length_encodeSymbol_le hpart
      have hwrite := huna.writes c ((utf8.encode s).length + 1 - path.length) (by omega)
      obtain rfl := Except.ok.inj (hwritten.symm.trans hwrite)
      refine ⟨first ++ part, rest, t', hs, hrest, rfl, ?_⟩
      rw [List.length_append, Encoding.encode_append, List.length_append]
      omega

theorem toStaysInside (huna : una.IsUnicode) {s t : List Char} (h : Unescapes s t) :
    ToStaysInside una (utf8.encode s) := by
  intro index fileEntryPath hstate
  obtain ⟨first, rest, t', rfl, -, -, hpath⟩ := hstate.exists_split huna h
  rw [Encoding.encode_append, List.length_append]
  omega

/-! ### Names in a path -/

theorem le_of_mem_hexadecimal {count value digit : Nat} (h : digit ∈ hexadecimal count value) :
    0x30 ≤ digit := by
  induction count with
  | zero => cases h
  | succ count ih =>
    rcases List.mem_cons.mp h with rfl | h
    · unfold hexadecimalDigit
      split <;> omega
    · exact ih h

theorem ne_separator_of_mem_escapeSequence {letter count value k : Nat} (hletter : 0x30 ≤ letter)
    (h : k ∈ escapeSequence letter count value) : k ≠ libcpathSeparator := by
  have hseparator : libcpathSeparator = 0x2f := rfl
  have hescape : escapeCharacter = 0x5c := rfl
  rcases List.mem_cons.mp h with rfl | h
  · omega
  rcases List.mem_cons.mp h with rfl | h
  · omega
  · have hle := le_of_mem_hexadecimal h
    omega

theorem toNat_of_mem_ascii {values : List Nat} (hlt : ∀ value ∈ values, value < 0x80) {c : Char}
    (h : c ∈ ascii values) : c.toNat ∈ values := by
  obtain ⟨value, hvalue, rfl⟩ := List.mem_map.mp h
  rwa [toNat_ofNat_of_lt (hlt value hvalue)]

/-- Nothing that a character is written as is a separator of the path. -/
theorem ne_separator_of_mem_escaped {c d : Char} (h : d ∈ escaped c) :
    d.toNat ≠ libcpathSeparator := by
  unfold escaped at h
  split_ifs at h with htwo height hescape
  · exact ne_separator_of_mem_escapeSequence (by decide)
      (toNat_of_mem_ascii (escapeSequence_lt (by decide) _ _) h)
  · exact ne_separator_of_mem_escapeSequence (by decide)
      (toNat_of_mem_ascii (escapeSequence_lt (by decide) _ _) h)
  · rcases List.mem_pair.mp h with rfl | rfl <;> decide
  · intro heq
    rw [List.mem_singleton.mp h] at heq
    exact htwo (by simp [isEscapedByTwoDigits, heq])

theorem separator_not_mem_escapeName (huna : una.IsUnicode) (name : List Char) :
    UInt8.ofNat libcpathSeparator ∉ utf8.encode (escapeName name) := by
  intro hmem
  obtain ⟨d, hd, hsymbol⟩ := List.mem_flatMap.mp hmem
  obtain ⟨c, -, hescaped⟩ := List.mem_flatMap.mp hd
  have hvalue : una.utf8Units.value (UInt8.ofNat libcpathSeparator) = libcpathSeparator := rfl
  have hunit := (isStringEncoding_utf8 huna.reads).of_value_lt hsymbol (by rw [hvalue]; decide)
  exact ne_separator_of_mem_escaped hescaped (hunit.2.symm.trans hvalue)

/-- The path with the names, a separator before each. -/
def pathOfNames (names : List (List Char)) : List Char :=
  names.flatMap fun name => Char.ofNat libcpathSeparator :: escapeName name

theorem unescapes_pathOfNames {names : List (List Char)}
    (h : ∀ name ∈ names, ∀ c ∈ name, c.toNat ≠ 0) :
    Unescapes (pathOfNames names) (names.flatMap (separatorCharacter :: ·)) := by
  induction names with
  | nil => exact .nil
  | cons name names ih =>
    obtain ⟨hname, hnames⟩ := List.forall_mem_cons.mp h
    have hescape := unescapes_escapeName name
    rw [MountFileSystem.upToNul_eq_self hname] at hescape
    exact (Unescapes.cons .separator hescape).append (ih hnames)

theorem encode_pathOfNames (names : List (List Char)) :
    utf8.encode (pathOfNames names) = names.flatMap fun name =>
      UInt8.ofNat libcpathSeparator :: utf8.encode (escapeName name) := by
  induction names with
  | nil => rfl
  | cons name names ih =>
    rw [pathOfNames, List.flatMap_cons, Encoding.encode_append, List.flatMap_cons, ← ih]
    rfl

theorem encode_flatMap_separatorCharacter (names : List (List Char)) :
    utf8.encode (names.flatMap (separatorCharacter :: ·)) = names.flatMap fun name =>
      UInt8.ofNat separator :: utf8.encode name := by
  induction names with
  | nil => rfl
  | cons name names ih =>
    rw [List.flatMap_cons, Encoding.encode_append, List.flatMap_cons, ← ih]
    rfl

/-- Names that are short enough to be written into a path are read back from the path, each behind
a separator of the library, and all writes are inside the buffers. -/
theorem names_round_trip (huna : una.IsUnicode) {names : List (List Char)} (hnames : names ≠ [])
    (hname : ∀ name ∈ names, name ≠ [] ∧ (∀ c ∈ name, c.toNat ≠ 0) ∧
      (utf8.encode name).length ≤ (ssizeMax - 1) / 10) :
    ∃ enc : List Char → List UInt8,
      (∀ name ∈ names, copyFromFileEntryPath una (utf8.encode name) = .ok (enc name) ∧
        UInt8.ofNat libcpathSeparator ∉ enc name ∧ FromStaysInside una (utf8.encode name)) ∧
      ∀ path, path = names.flatMap (fun name => UInt8.ofNat libcpathSeparator :: enc name) →
        path.length ≤ ssizeMax - 1 →
        copyToFileEntryPath una path =
            .ok (names.flatMap fun name => UInt8.ofNat separator :: utf8.encode name) ∧
          ToStaysInside una path := by
  refine ⟨fun name => utf8.encode (escapeName name), ?_, ?_⟩
  · intro name hmem
    obtain ⟨hne, -, hlength⟩ := hname name hmem
    exact ⟨copyFromFileEntryPath_encode huna hne hlength, separator_not_mem_escapeName huna name,
      fromStaysInside huna name⟩
  · intro path hpath hlength
    have hunescapes := unescapes_pathOfNames fun name hmem => (hname name hmem).2.1
    rw [← encode_pathOfNames] at hpath
    subst hpath
    refine ⟨?_, toStaysInside huna hunescapes⟩
    obtain ⟨first, rest, rfl⟩ := List.exists_cons_of_ne_nil hnames
    rw [copyToFileEntryPath_encode huna hunescapes rfl hlength, encode_flatMap_separatorCharacter]

/-! ### Names and paths that are too long -/

theorem length_encode_flatMap_replicate (count : Nat) (c : Char) (f : Char → List Char) :
    (utf8.encode ((List.replicate count c).flatMap f)).length =
      count * (utf8.encode (f c)).length := by
  induction count with
  | zero => simp
  | succ count ih =>
    rw [List.replicate_succ, List.flatMap_cons, Encoding.encode_append, List.length_append, ih]
    ring

/-- A name of control characters, each of which is written with four. -/
def controlName (count : Nat) : List Char := List.replicate count (Char.ofNat 1)

theorem length_encode_controlName (count : Nat) :
    (utf8.encode (controlName count)).length = count := by
  have hone : (utf8.encode [Char.ofNat 1]).length = 1 := by decide
  have hlength := length_encode_flatMap_replicate count (Char.ofNat 1) ([·])
  rwa [List.flatMap_singleton', hone, Nat.mul_one] at hlength

theorem length_encode_escapeName_controlName (count : Nat) :
    (utf8.encode (escapeName (controlName count))).length = count * 4 := by
  have hfour : (utf8.encode (escaped (Char.ofNat 1))).length = 4 := by decide
  have hnul : ∀ c ∈ controlName count, c.toNat ≠ 0 := by
    intro c hc
    rw [List.eq_of_mem_replicate hc]
    decide
  rw [escapeName, MountFileSystem.upToNul_eq_self hnul, controlName,
    length_encode_flatMap_replicate, hfour]

theorem copyFromFileEntryPath_controlName {count : Nat} (hlong : (ssizeMax - 1) / 10 < count)
    (hcount : count ≤ ssizeMax - 1) :
    copyFromFileEntryPath una (utf8.encode (controlName count)) = .error .valueExceedsMaximum := by
  have hlength := length_encode_controlName count
  rw [copyFromFileEntryPath]
  dsimp only
  rw [if_neg (by omega), if_pos (by omega)]

theorem copyToFileEntryPath_controlName {count : Nat} (hlong : ssizeMax - 1 < 12 * count) :
    copyToFileEntryPath una (utf8.encode (pathOfNames (List.replicate 3 (controlName count)))) =
      .error .valueOutOfBounds := by
  have hname := length_encode_escapeName_controlName count
  have hlength : ssizeMax - 1 <
      (utf8.encode (pathOfNames (List.replicate 3 (controlName count)))).length := by
    rw [encode_pathOfNames]
    simp only [List.replicate, List.flatMap_cons, List.flatMap_nil, List.length_append,
      List.length_cons, List.length_nil, hname]
    omega
  rw [copyToFileEntryPath]
  dsimp only
  rw [if_pos (Or.inr hlength)]

/-- The longest name that can be written is not written with one more character, and a path with
three of it is not read. -/
theorem too_long_not_copied :
    copyFromFileEntryPath wellFormedMountLibUna
          (utf8.encode (controlName (ssizeMax / 10 + 1))) =
        .error .valueExceedsMaximum ∧
      copyToFileEntryPath wellFormedMountLibUna
          (utf8.encode (pathOfNames (List.replicate 3 (controlName (ssizeMax / 10))))) =
        .error .valueOutOfBounds := by
  have hsize : ssizeMax = 9223372036854775807 := rfl
  exact ⟨copyFromFileEntryPath_controlName (by omega) (by omega),
    copyToFileEntryPath_controlName (by omega)⟩

/-- A slash, a backslash, a control character and a character that is undefined. -/
def escapedNames : List (List Char) :=
  [[Char.ofNat 0x2f, Char.ofNat 0x5c], [Char.ofNat 1], [Char.ofNat 0xfffe, 'A']]

theorem escapedNames_short : ∀ name ∈ escapedNames, name ≠ [] ∧ (∀ c ∈ name, c.toNat ≠ 0) ∧
    (utf8.encode name).length ≤ (ssizeMax - 1) / 10 := by
  have hsize : (ssizeMax - 1) / 10 = 922337203685477580 := rfl
  refine List.forall_mem_cons.mpr ⟨?_, List.forall_mem_cons.mpr
    ⟨?_, List.forall_mem_singleton.mpr ?_⟩⟩
  · refine ⟨List.cons_ne_nil _ _, List.forall_mem_cons.mpr ⟨by decide,
      List.forall_mem_singleton.mpr (by decide)⟩, ?_⟩
    exact hsize ▸ (show 2 ≤ 922337203685477580 by decide)
  · refine ⟨List.cons_ne_nil _ _, List.forall_mem_singleton.mpr (by decide), ?_⟩
    exact hsize ▸ (show 1 ≤ 922337203685477580 by decide)
  · refine ⟨List.cons_ne_nil _ _, List.forall_mem_cons.mpr ⟨by decide,
      List.forall_mem_singleton.mpr (by decide)⟩, ?_⟩
    exact hsize ▸ (show 4 ≤ 922337203685477580 by decide)

theorem names_round_trip_escapedNames :
    ∃ enc : List Char → List UInt8,
      (∀ name ∈ escapedNames,
        copyFromFileEntryPath wellFormedMountLibUna (utf8.encode name) = .ok (enc name) ∧
        UInt8.ofNat libcpathSeparator ∉ enc name ∧
        FromStaysInside wellFormedMountLibUna (utf8.encode name)) ∧
      ∀ path, path =
          escapedNames.flatMap (fun name => UInt8.ofNat libcpathSeparator :: enc name) →
        path.length ≤ ssizeMax - 1 →
        copyToFileEntryPath wellFormedMountLibUna path =
            .ok (escapedNames.flatMap fun name => UInt8.ofNat separator :: utf8.encode name) ∧
          ToStaysInside wellFormedMountLibUna path :=
  names_round_trip isUnicode_wellFormedMountLibUna (List.cons_ne_nil _ _) escapedNames_short

end MountPathString

end FsFat
