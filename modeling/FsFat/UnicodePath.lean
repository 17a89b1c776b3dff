import FsFat.EntryIdentifiers
import FsFat.FileEntryPath

/-!
Paths in UTF-8 and in UTF-16. The functions that look a path up measure it in
code units, and take a path of one code unit for that of the root directory. A
character outside ASCII has one code unit in UTF-16 and more in UTF-8.
-/

namespace FsFat

/-! ### The encodings -/

def utf8 : Encoding Char UInt8 where
  encodeSymbol := String.utf8EncodeChar
  ne_nil _ := String.utf8EncodeChar_ne_nil

/-- A character in UTF-16: one unit, or a surrogate pair. -/
def utf16EncodeChar (c : Char) : List UInt16 :=
  if c.toNat < 0x10000 then [UInt16.ofNat c.toNat]
  else
    [UInt16.ofNat (0xd800 + (c.toNat - 0x10000) / 0x400),
      UInt16.ofNat (0xdc00 + (c.toNat - 0x10000) % 0x400)]

def utf16 : Encoding Char UInt16 where
  encodeSymbol := utf16EncodeChar
  ne_nil c := by
    unfold utf16EncodeChar
    split <;> exact List.cons_ne_nil _ _

/-- libuna reads the characters of both encodings, one at a time. -/
structure LibUna.ReadsUnicode (una : LibUna) : Prop where
  utf8 : utf8.IsReadBy Char.toNat una.copyFromUtf8
  utf16 : utf16.IsReadBy Char.toNat una.copyFromUtf16

theorem char_toNat_lt (c : Char) : c.toNat < 0x110000 := by
  rcases c.valid with h | ⟨_, h⟩
  · exact lt_trans h (by decide)
  · exact h

theorem toNat_ofNat_of_lt {value : Nat} (h : value < 0x80) : (Char.ofNat value).toNat = value := by
  have hvalid : value.isValidChar := Or.inl (by omega)
  rw [Char.ofNat, dif_pos hvalid]
  rfl

theorem isStringEncoding_utf8 {una : LibUna} (h : utf8.IsReadBy Char.toNat una.copyFromUtf8) :
    IsStringEncoding utf8 una.utf8Units := by
  refine ⟨h, ?_, ?_⟩
  · intro c hc
    refine ⟨UInt8.ofNat c.toNat, ?_, ?_⟩
    · show String.utf8EncodeChar c = _
      unfold String.utf8EncodeChar
      exact if_pos (Nat.le_of_lt_succ hc)
    · show (UInt8.ofNat c.toNat).toNat = c.toNat
      rw [UInt8.toNat_ofNat']
      omega
  · intro c hc unit hunit
    have hlt := char_toNat_lt c
    have hmem : unit ∈ String.utf8EncodeChar c := hunit
    show 0x80 ≤ unit.toNat
    have hvalue : c.val.toNat = c.toNat := rfl
    unfold String.utf8EncodeChar at hmem
    dsimp only at hmem
    rw [hvalue] at hmem
    split_ifs at hmem with h1 h2 h3
    · omega
    · simp only [List.mem_cons, List.not_mem_nil, or_false] at hmem
      rcases hmem with rfl | rfl <;> rw [UInt8.toNat_ofNat'] <;> omega
    · simp only [List.mem_cons, List.not_mem_nil, or_false] at hmem
      rcases hmem with rfl | rfl | rfl <;> rw [UInt8.toNat_ofNat'] <;> omega
    · simp only [List.mem_cons, List.not_mem_nil, or_false] at hmem
      rcases hmem with rfl | rfl | rfl | rfl <;> rw [UInt8.toNat_ofNat'] <;> omega

theorem isStringEncoding_utf16 {una : LibUna} (h : utf16.IsReadBy Char.toNat una.copyFromUtf16) :
    IsStringEncoding utf16 una.utf16Units := by
  refine ⟨h, ?_, ?_⟩
  · intro c hc
    refine ⟨UInt16.ofNat c.toNat, if_pos (lt_trans hc (by decide)), ?_⟩
    show (UInt16.ofNat c.toNat).toNat = c.toNat
    rw [UInt16.toNat_ofNat']
    omega
  · intro c hc unit hunit
    have hlt := char_toNat_lt c
    have hmem : unit ∈ utf16EncodeChar c := hunit
    show 0x80 ≤ unit.toNat
    unfold utf16EncodeChar at hmem
    split_ifs at hmem with h1
    · rw [List.mem_singleton] at hmem
      rw [hmem, UInt16.toNat_ofNat']
      omega
    · simp only [List.mem_cons, List.not_mem_nil, or_false] at hmem
      rcases hmem with rfl | rfl <;> rw [UInt16.toNat_ofNat'] <;> omega

/-! ### Paths of one code unit -/

theorem length_utf8_eq_one_iff (c : Char) : (utf8.encodeSymbol c).length = 1 ↔ c.toNat < 0x80 := by
  show (String.utf8EncodeChar c).length = 1 ↔ _
  have hvalue : c.val.toNat = c.toNat := rfl
  unfold String.utf8EncodeChar
  dsimp only
  rw [hvalue]
  split_ifs <;> simp <;> omega

theorem length_utf16_eq_one_iff (c : Char) :
    (utf16.encodeSymbol c).length = 1 ↔ c.toNat < 0x10000 := by
  show (utf16EncodeChar c).length = 1 ↔ _
  unfold utf16EncodeChar
  split_ifs <;> simp <;> omega

theorem length_encode_utf8_le_one_iff {s : List Char} :
    (utf8.encode s).length ≤ 1 ↔ s = [] ∨ ∃ c, s = [c] ∧ c.toNat < 0x80 := by
  simp only [utf8.length_encode_le_one_iff, length_utf8_eq_one_iff]

theorem length_encode_utf16_le_one_iff {s : List Char} :
    (utf16.encode s).length ≤ 1 ↔ s = [] ∨ ∃ c, s = [c] ∧ c.toNat < 0x10000 := by
  simp only [utf16.length_encode_le_one_iff, length_utf16_eq_one_iff]

/-- A string has no more units in UTF-16 than in UTF-8. -/
theorem length_encode_utf16_le (s : List Char) :
    (utf16.encode s).length ≤ (utf8.encode s).length := by
  induction s with
  | nil => exact Nat.le_refl 0
  | cons c s ih =>
    have hutf8 := utf8.length_encodeSymbol_pos c
    have hutf16 : (utf16.encodeSymbol c).length ≤ (utf8.encodeSymbol c).length := by
      by_cases hone : (utf16.encodeSymbol c).length = 1
      · omega
      · have hutf8One : (utf8.encodeSymbol c).length ≠ 1 := by
          intro heq
          have hlt := (length_utf8_eq_one_iff c).mp heq
          exact hone ((length_utf16_eq_one_iff c).mpr (lt_trans hlt (by decide)))
        have htwo : (utf16.encodeSymbol c).length ≤ 2 := by
          show (utf16EncodeChar c).length ≤ 2
          unfold utf16EncodeChar
          split <;> simp
        omega
    simp only [Encoding.encode_cons, List.length_append]
    omega

/-- The name of a file entry, with its size and its encoding. The root directory
has none. -/
def FileEntry.nameData (fileEntry : FileEntry) : Option (Option (List UInt8) × Nat × Bool) :=
  fileEntry.directoryEntry.map fun entry => (entry.name, entry.nameSize, entry.isUnicode)

/-- The file entries have the same identifier, name, attributes, start cluster
and size. -/
structure SameFile (first second : FileEntry) : Prop where
  identifier : first.identifier = second.identifier
  nameData : first.nameData = second.nameData
  fileAttributeFlags : first.fileAttributeFlags = second.fileAttributeFlags
  clusterNumber : first.clusterNumber = second.clusterNumber
  dataSize : first.dataSize = second.dataSize

theorem SameFile.refl (fileEntry : FileEntry) : SameFile fileEntry fileEntry :=
  ⟨rfl, rfl, rfl, rfl, rfl⟩

/-- Two lookups of a path have the same result, -1, 0 or 1, and the same file
when it is 1. -/
def SameLookup : Except Error (Bool × FileEntry) → Except Error (Bool × FileEntry) → Prop
  | .error _, .error _ => True
  | .ok (true, first), .ok (true, second) => SameFile first second
  | .ok (false, _), .ok (false, _) => True
  | _, _ => False

theorem SameLookup.refl (result : Except Error (Bool × FileEntry)) : SameLookup result result := by
  match result with
  | .error _ => trivial
  | .ok (true, fileEntry) => exact SameFile.refl fileEntry
  | .ok (false, _) => trivial

section Lookup

variable {una : LibUna} {fs : FileSystem} {image : List UInt8} {root : Directory}

/-- A position with the result 1 has a directory entry, at each step of a path. -/
theorem followPath_result {components : List (List Char)} {position last : PathPosition}
    (hposition : position.result = true → position.directoryEntry ≠ none)
    (h : followPath una fs image root position components = .ok last) :
    last.result = true → last.directoryEntry ≠ none := by
  apply followPath_invariant (P := fun position =>
    position.result = true → position.directoryEntry ≠ none) _ _ _ hposition h
  · intro position directory _ hresult
    cases hresult
  · intro position directory hresult
    cases hresult
  · intro position directory entry _
    exact Option.some_ne_none entry

theorem getFileEntry_result {position : PathPosition} {result : Bool} {fileEntry : FileEntry}
    (h : position.getFileEntry fs = .ok (result, fileEntry)) : position.result = result := by
  unfold PathPosition.getFileEntry at h
  split at h
  · injection h with h
    exact congrArg Prod.fst h
  · obtain ⟨_, _, heq⟩ := map_eq_ok_iff.mp h
    exact congrArg Prod.fst heq

/-- A path that is followed to its end is not that of the root directory. -/
theorem getFileEntry_ne_root {position : PathPosition} {fileEntry : FileEntry}
    (hposition : position.directoryEntry ≠ none)
    (h : position.getFileEntry fs = .ok (true, fileEntry)) : fileEntry.nameData ≠ none := by
  obtain ⟨entry, hentry⟩ := Option.ne_none_iff_exists'.mp hposition
  rw [PathPosition.getFileEntry, hentry, map_eq_ok_iff] at h
  obtain ⟨safeDirectoryEntry, _, heq⟩ := h
  injection heq with _ hfile
  rw [← hfile]
  exact Option.some_ne_none _

/-- The two functions follow the same components, unless one of them has a path
of at most one code unit. -/
theorem getFileEntryByPath_encode {υ : Type} {e : Encoding Char υ} {units : CodeUnits υ}
    (h : IsStringEncoding e units) {s : List Char} (hlength : (e.encode s).length ≤ ssizeMax) :
    getFileEntryByPath una units fs image root (e.encode s) =
      if (e.encode s).length ≤ 1 then
        .ok (true, .create (rootIdentifier fs.ioHandle) none (some root))
      else
        followPath una fs image root (.start root)
          (components isPathSeparator (withoutLeadingSeparator s)) >>=
            PathPosition.getFileEntry fs := by
  rw [getFileEntryByPath, resolvePath_encode h una fs image root s hlength]
  split <;> rfl

/-- A path of one character that has one unit in UTF-16 and more in UTF-8. -/
theorem not_sameLookup_of_singleton (huna : una.ReadsUnicode) {c : Char} (h : 0x80 ≤ c.toNat)
    (hlt : c.toNat < 0x10000) :
    ¬ SameLookup (getFileEntryByUtf8Path una fs image root (utf8.encode [c]))
      (getFileEntryByUtf16Path una fs image root (utf16.encode [c])) := by
  have hutf16 : (utf16.encode [c]).length ≤ 1 :=
    length_encode_utf16_le_one_iff.mpr (Or.inr ⟨c, rfl, hlt⟩)
  have hutf8 : ¬ (utf8.encode [c]).length ≤ 1 := by
    rw [length_encode_utf8_le_one_iff]
    simp only [List.cons.injEq, and_true, reduceCtorEq, false_or, not_exists, not_and]
    intro d hd
    subst hd
    omega
  have hlength : (utf8.encode [c]).length ≤ ssizeMax := by
    have hle : (String.utf8EncodeChar c).length ≤ 4 := by
      rw [String.length_utf8EncodeChar]
      exact c.utf8Size_le_four
    have hencode : utf8.encode [c] = String.utf8EncodeChar c := List.append_nil _
    rw [hencode]
    exact le_trans hle (by decide)
  have hlength' := le_trans (length_encode_utf16_le [c]) hlength
  have hroot : getFileEntryByUtf16Path una fs image root (utf16.encode [c]) =
      .ok (true, .create (rootIdentifier fs.ioHandle) none (some root)) :=
    (getFileEntryByPath_encode (isStringEncoding_utf16 huna.utf16) hlength').trans (if_pos hutf16)
  have hfollowed : getFileEntryByUtf8Path una fs image root (utf8.encode [c]) =
      followPath una fs image root (.start root)
        (components isPathSeparator (withoutLeadingSeparator [c])) >>=
          PathPosition.getFileEntry fs :=
    (getFileEntryByPath_encode (isStringEncoding_utf8 huna.utf8) hlength).trans (if_neg hutf8)
  rw [hroot]
  intro hsame
  match hresult : getFileEntryByUtf8Path una fs image root (utf8.encode [c]) with
  | .error _ =>
    rw [hresult] at hsame
    exact hsame
  | .ok (false, _) =>
    rw [hresult] at hsame
    exact hsame
  | .ok (true, fileEntry) =>
    rw [hresult] at hsame
    obtain ⟨last, hlast, hentry⟩ := bind_eq_ok_iff.mp (hfollowed.symm.trans hresult)
    have hreached := followPath_result (fun hstart => Bool.noConfusion hstart) hlast
      (getFileEntry_result hentry)
    exact getFileEntry_ne_root hreached hentry hsame.nameData

/-- The lookups of a path in UTF-8 and in UTF-16 agree for every string but those
of a single character from U+0080 to U+FFFF. -/
theorem sameLookup_iff (huna : una.ReadsUnicode) (s : List Char)
    (hlength : (utf8.encode s).length ≤ ssizeMax) :
    SameLookup (getFileEntryByUtf8Path una fs image root (utf8.encode s))
        (getFileEntryByUtf16Path una fs image root (utf16.encode s)) ↔
      ¬ ∃ c : Char, s = [c] ∧ 0x80 ≤ c.toNat ∧ c.toNat < 0x10000 := by
  constructor
  · rintro hsame ⟨c, rfl, hge, hlt⟩
    exact not_sameLookup_of_singleton huna hge hlt hsame
  · intro hnot
    have hshort : (utf8.encode s).length ≤ 1 ↔ (utf16.encode s).length ≤ 1 := by
      rw [length_encode_utf8_le_one_iff, length_encode_utf16_le_one_iff]
      apply or_congr Iff.rfl
      constructor
      · rintro ⟨c, hs, hc⟩
        exact ⟨c, hs, lt_trans hc (by decide)⟩
      · rintro ⟨c, hs, hc⟩
        refine ⟨c, hs, ?_⟩
        by_contra hge
        exact hnot ⟨c, hs, Nat.le_of_not_lt hge, hc⟩
    have hutf8 : getFileEntryByUtf8Path una fs image root (utf8.encode s) = _ :=
      getFileEntryByPath_encode (isStringEncoding_utf8 huna.utf8) hlength
    have hutf16 : getFileEntryByUtf16Path una fs image root (utf16.encode s) = _ :=
      getFileEntryByPath_encode (isStringEncoding_utf16 huna.utf16)
        (le_trans (length_encode_utf16_le s) hlength)
    rw [hutf8, hutf16]
    simp only [hshort]
    exact SameLookup.refl _

end Lookup

/-! ### A path of one character -/

/-- Reads a character of a UTF-16 string. -/
def copyUtf16Character (string : List UInt16) (index : Nat) : Except Error (Nat × Nat) :=
  match string.drop index with
  | [] => .error .copyFailed
  | unit :: rest =>
    if 0xd800 ≤ unit.toNat ∧ unit.toNat < 0xdc00 then
      match rest with
      | [] => .error .copyFailed
      | low :: _ =>
        if 0xdc00 ≤ low.toNat ∧ low.toNat < 0xe000 then
          .ok (0x10000 + (unit.toNat - 0xd800) * 0x400 + (low.toNat - 0xdc00), index + 2)
        else .error .copyFailed
    else .ok (unit.toNat, index + 1)

/-- The units of a stream, least significant byte first. -/
def utf16Units : List UInt8 → List UInt16
  | low :: high :: rest => UInt16.ofNat (low.toNat + 0x100 * high.toNat) :: utf16Units rest
  | _ => []

theorem utf16Units_drop (bytes : List UInt8) (count : Nat) :
    utf16Units (bytes.drop (2 * count)) = (utf16Units bytes).drop count := by
  induction count generalizing bytes with
  | zero => rfl
  | succ count ih =>
    match bytes with
    | [] => simp [utf16Units]
    | [_] =>
      rw [List.drop_eq_nil_of_le (by rw [List.length_singleton]; omega)]
      rfl
    | low :: high :: rest => exact ih rest

/-- The character of a byte that is not in ASCII is the replacement character. -/
def byteCharacter (byte : UInt8) : Char :=
  Char.ofNat (if byte.toNat < 0x80 then byte.toNat else 0xfffd)

/-- libuna on well-formed strings, and `towupper` in the C locale. -/
def wellFormedLibUna : LibUna where
  copyFromUtf8 string index :=
    match ByteArray.utf8DecodeChar? (string.drop index).toByteArray 0 with
    | some c => .ok (c.toNat, index + (String.utf8EncodeChar c).length)
    | none => .error .copyFailed
  copyFromUtf16 := copyUtf16Character
  copyFromUtf16Stream string index :=
    (copyUtf16Character (utf16Units (string.drop index)) 0).map fun result =>
      (result.1, index + 2 * result.2)
  copyFromByteStream string index :=
    match string.drop index with
    | [] => .error .copyFailed
    | byte :: _ => .ok (if byte.toNat < 0x80 then byte.toNat else 0xfffd, index + 1)
  towupper c := if 0x61 ≤ c ∧ c ≤ 0x7a then c - 0x20 else c

theorem copyUtf16Character_encode (s : List Char) (c : Char) (t : List Char) :
    copyUtf16Character (utf16.encode (s ++ c :: t)) (utf16.encode s).length =
      .ok (c.toNat, (utf16.encode (s ++ [c])).length) := by
  have hlt := char_toNat_lt c
  rw [copyUtf16Character, utf16.drop_encode, utf16.length_encode_concat]
  have hsymbol : utf16.encodeSymbol c = utf16EncodeChar c := rfl
  rw [hsymbol, utf16EncodeChar]
  by_cases hc : c.toNat < 0x10000
  · rw [if_pos hc]
    have hunit : (UInt16.ofNat c.toNat).toNat = c.toNat := by
      rw [UInt16.toNat_ofNat']
      omega
    have hscalar : ¬ (0xd800 ≤ c.toNat ∧ c.toNat < 0xdc00) := by
      rintro ⟨hge, hless⟩
      rcases c.valid with hvalid | ⟨hvalid, _⟩
      · exact absurd hge (not_le.mpr hvalid)
      · exact absurd hvalid (not_lt.mpr (by change c.toNat ≤ 0xdfff; omega))
    simp only [List.singleton_append, hunit, if_neg hscalar, List.length_singleton]
  · rw [if_neg hc]
    have hhigh : (UInt16.ofNat (0xd800 + (c.toNat - 0x10000) / 0x400)).toNat =
        0xd800 + (c.toNat - 0x10000) / 0x400 := by
      rw [UInt16.toNat_ofNat']
      omega
    have hlow : (UInt16.ofNat (0xdc00 + (c.toNat - 0x10000) % 0x400)).toNat =
        0xdc00 + (c.toNat - 0x10000) % 0x400 := by
      rw [UInt16.toNat_ofNat']
      omega
    simp only [List.cons_append, hhigh, hlow]
    rw [if_pos (by omega), if_pos (by omega)]
    simp only [Except.ok.injEq, Prod.mk.injEq, List.length_cons, List.length_nil, and_true]
    omega

theorem readsUnicode_wellFormedLibUna : wellFormedLibUna.ReadsUnicode := by
  refine ⟨fun s c t => ?_, copyUtf16Character_encode⟩
  have hsymbol : utf8.encodeSymbol c = String.utf8EncodeChar c := rfl
  simp only [wellFormedLibUna, utf8.drop_encode, utf8.length_encode_concat, hsymbol,
    List.toByteArray_append, ByteArray.utf8DecodeChar?_utf8EncodeChar_append]

/-- A path of two components, with characters of two, three and four bytes. -/
def twoNamesPath : List Char :=
  [Char.ofNat 0xe9, Char.ofNat 0x5c, Char.ofNat 0x20ac, Char.ofNat 0x1f600]

/-- The path of two components. -/
theorem sameLookup_iff_two_names :
    ∃ opened fs root,
      Volume.openFileIOHandle rootFileEnvironment accessFlagRead .create = (.ok (), opened) ∧
      opened.fileSystem = some ⟨some fs, some root⟩ ∧
      (SameLookup
          (getFileEntryByUtf8Path wellFormedLibUna fs rootFileImage root
            (utf8.encode twoNamesPath))
          (getFileEntryByUtf16Path wellFormedLibUna fs rootFileImage root
            (utf16.encode twoNamesPath)) ↔
        ¬ ∃ c : Char, twoNamesPath = [c] ∧ 0x80 ≤ c.toNat ∧ c.toNat < 0x10000) := by
  obtain ⟨opened, fs, root, hopen, hfs, _⟩ := open_rootFile
  exact ⟨opened, fs, root, hopen, hfs,
    sameLookup_iff readsUnicode_wellFormedLibUna _ (by decide)⟩

/-- The path of the character U+00E9 is that of the root directory in UTF-16, and
that of a name in UTF-8. -/
theorem getFileEntryByPath_differs :
    utf8.encode [Char.ofNat 0xe9] = [0xc3, 0xa9] ∧ utf16.encode [Char.ofNat 0xe9] = [0xe9] ∧
    ∃ opened fs root,
      Volume.openFileIOHandle rootFileEnvironment accessFlagRead .create = (.ok (), opened) ∧
      opened.fileSystem = some ⟨some fs, some root⟩ ∧
      getFileEntryByUtf16Path wellFormedLibUna fs rootFileImage root [0xe9] =
        .ok (true, .create (rootIdentifier fs.ioHandle) none (some root)) ∧
      ¬ SameLookup (getFileEntryByUtf8Path wellFormedLibUna fs rootFileImage root [0xc3, 0xa9])
        (getFileEntryByUtf16Path wellFormedLibUna fs rootFileImage root [0xe9]) := by
  refine ⟨by decide, by decide, ?_⟩
  obtain ⟨opened, fs, root, hopen, hfs, _⟩ := open_rootFile
  refine ⟨opened, fs, root, hopen, hfs, rfl, ?_⟩
  have hge : 0x80 ≤ (Char.ofNat 0xe9).toNat := by decide
  exact not_sameLookup_of_singleton readsUnicode_wellFormedLibUna hge (by decide)

end FsFat
