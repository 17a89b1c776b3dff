import FsFat.BodyFile
import FsFat.MountFileSystem

/-!
Lines of the body file that are read back. A reader cuts a line at the bars and undoes the escape
sequences of the second field. It gets the name that was written, and the values of the file entry
in the other fields, if the name has neither a bar nor an escape sequence of its own.
-/

namespace FsFat

open MountPathString

namespace InfoHandle

/-! ### What is written for a name -/

section Write

variable {una : InfoLibUna}

theorem escapeNameCharacter_encode (huna : una.IsUnicode) (c : Char) {room : Nat}
    (hroom : (utf8.encodeSymbol c).length ≤ room) :
    escapeNameCharacter una room c.toNat = .ok (utf8.encode (escaped [c])) := by
  rw [escapeNameCharacter, escaped_cons]
  cases hcontrol : isControlCharacter c.toNat with
  | true =>
    have hbytes : utf8.encode (sequenceOf c) = (escapeSequence 0x78 2 c.toNat).map UInt8.ofNat :=
      encode_ascii (escapeSequence_lt (by decide) _ _)
    rw [if_pos rfl, if_pos rfl, Encoding.encode_append, hbytes]
    exact congrArg _ (List.append_nil _).symm
  | false =>
    rw [if_neg Bool.false_ne_true, if_neg Bool.false_ne_true, huna.writes c room hroom]
    exact congrArg _ (List.append_nil _).symm

/-- A character is written with four bytes at most for each of its own. -/
theorem length_encode_escaped_le (c : Char) :
    (utf8.encode (escaped [c])).length ≤ 4 * (utf8.encodeSymbol c).length := by
  have hpos := utf8.length_encodeSymbol_pos c
  rw [escaped_cons, Encoding.encode_append, List.length_append]
  split
  · rw [sequenceOf, length_encode_ascii (escapeSequence_lt (by decide) _ _), escapeSequence,
      List.length_cons, List.length_cons, length_hexadecimal]
    exact Nat.mul_le_mul_left 4 hpos
  · rw [Encoding.encode_cons, Encoding.encode_nil, List.append_nil]
    exact Nat.le_mul_of_pos_left _ (by omega)

/-- The loop writes the rest of the characters, inside the string that is allocated. -/
theorem escapeNameCharacters_encode (huna : una.IsUnicode) (first s : List Char)
    (written : List UInt8) (hwritten : written.length ≤ 4 * (utf8.encode first).length)
    {count : Nat} (hcount : s.length < count) :
    escapeNameCharacters una (utf8.encode (first ++ s)) ((utf8.encode (first ++ s)).length * 4 + 1)
        count (utf8.encode first).length written =
      .ok (written ++ utf8.encode (escaped s)) := by
  induction s generalizing first written count with
  | nil =>
    obtain ⟨count, rfl⟩ : ∃ k, count = k + 1 := ⟨count - 1, by simp at hcount; omega⟩
    rw [escapeNameCharacters, List.append_nil, if_neg (Nat.lt_irrefl _)]
    exact congrArg _ (List.append_nil _).symm
  | cons c s ih =>
    obtain ⟨count, rfl⟩ : ∃ k, count = k + 1 := ⟨count - 1, by simp at hcount; omega⟩
    have hlt := (utf8.length_encode_lt_iff first (c :: s)).mpr (List.cons_ne_nil c s)
    have hlength : (utf8.encode (first ++ c :: s)).length =
        (utf8.encode first).length + ((utf8.encodeSymbol c).length + (utf8.encode s).length) := by
      rw [Encoding.encode_append, List.length_append, Encoding.encode_cons, List.length_append]
    have hescape := escapeNameCharacter_encode huna c
      (show (utf8.encodeSymbol c).length ≤
        (utf8.encode (first ++ c :: s)).length * 4 + 1 - written.length by omega)
    have hle := length_encode_escaped_le c
    have htail := ih (first ++ [c]) (written ++ utf8.encode (escaped [c]))
      (by rw [utf8.length_encode_concat, List.length_append]; omega)
      (Nat.lt_of_succ_lt_succ hcount)
    rw [List.append_assoc, List.singleton_append] at htail
    have hsplit : escaped (c :: s) = escaped [c] ++ escaped s := escaped_append [c] s
    rw [escapeNameCharacters, if_pos hlt]
    simp only [huna.reads first c s, bind, Except.bind, hescape, htail]
    rw [hsplit, Encoding.encode_append, List.append_assoc]

/-- A name is printed as what it is written as, if it is not too long. -/
theorem nameValueFprint_encode (huna : una.IsUnicode) (name : List Char) :
    nameValueFprint una (utf8.encode name) =
      if (utf8.encode name).length ≤ (ssizeMax - 1) / 4 then .ok (utf8.encode (escaped name))
      else .error .valueExceedsMaximum := by
  unfold nameValueFprint
  by_cases hlength : (utf8.encode name).length ≤ (ssizeMax - 1) / 4
  · have hcount := Nat.lt_succ_of_le (utf8.length_le_length_encode name)
    have hwritten := escapeNameCharacters_encode huna [] name [] (Nat.zero_le _) hcount
    rw [if_pos hlength, if_neg (Nat.not_lt.mpr hlength)]
    exact hwritten
  · rw [if_neg hlength, if_pos (Nat.lt_of_not_le hlength)]

/-- A name that is printed is not too long. -/
def IsShort (name : Option (List Char)) : Prop :=
  (utf8.encode (name.getD [])).length ≤ (ssizeMax - 1) / 4

theorem optionalNameFprint_encode (huna : una.IsUnicode) (name : Option (List Char)) :
    optionalNameFprint una (name.map utf8.encode) =
      if (utf8.encode (name.getD [])).length ≤ (ssizeMax - 1) / 4 then
        .ok (utf8.encode (escaped (name.getD [])))
      else .error .valueExceedsMaximum := by
  cases name with
  | none => exact (if_pos (Nat.zero_le _)).symm
  | some name => exact nameValueFprint_encode huna name

end Write

/-! ### The fields -/

/-- The fields behind the name. -/
def fieldsBehindName (infoHandle : InfoHandle) (fileEntry : FileEntry) : List (List Char) :=
  let modificationTime := bodyFileTime fileEntry.getModificationTime
  [decimal (infoHandle.metadataAddress fileEntry),
    fileModeString (fileEntry.getFileAttributeFlags.getD 0), ['0'], ['0'],
    decimal (UInt64.ofNat fileEntry.getSize), timeSeconds (bodyFileTime fileEntry.getAccessTime),
    if infoHandle.fileSystemFormat = .exfat then timeWithFraction modificationTime
      else timeSeconds modificationTime,
    ['0'], timeWithFraction (bodyFileTime fileEntry.getCreationTime)]

theorem fprintBehindName_eq (infoHandle : InfoHandle) (fileEntry : FileEntry) :
    infoHandle.fprintBehindName fileEntry =
      '|' :: ['|'].intercalate (infoHandle.fieldsBehindName fileEntry) ++ ['\n'] := by
  simp only [fprintBehindName, fieldsBehindName, List.intercalate_cons_cons,
    List.intercalate_singleton, List.append_assoc, List.cons_append, List.nil_append]

/-- A text without a bar, and without an end of line. -/
def IsField (s : List Char) : Prop := '|' ∉ s ∧ '\n' ∉ s

theorem IsField.append {s t : List Char} (hs : IsField s) (ht : IsField t) : IsField (s ++ t) := by
  simp only [IsField, List.mem_append, not_or]
  exact ⟨⟨hs.1, ht.1⟩, ⟨hs.2, ht.2⟩⟩

theorem isField_decimal (value : UInt64) : IsField (decimal value) := by
  have hdigit {c : Char} (h : c ∈ decimal value) : c.isDigit = true :=
    Nat.isDigit_of_mem_toDigits (by decide) (by decide) h
  constructor
  · intro h
    exact absurd (hdigit h) (by decide)
  · intro h
    exact absurd (hdigit h) (by decide)

theorem isField_twoDigits (value : UInt64) : IsField (twoDigits value) := by
  unfold twoDigits
  split
  · exact IsField.append (s := ['0']) (by simp [IsField]) (isField_decimal value)
  · exact isField_decimal value

theorem isField_timeWithFraction (time : UInt64) : IsField (timeWithFraction time) :=
  (isField_decimal _).append (IsField.append (s := ['.']) (by simp [IsField]) (isField_twoDigits _))

theorem isField_fileModeString (flags : Nat) : IsField (fileModeString flags) := by
  unfold fileModeString
  dsimp only
  split <;> split <;> simp [IsField]

theorem isField_of_mem_fieldsBehindName {infoHandle : InfoHandle} {fileEntry : FileEntry}
    {field : List Char} (h : field ∈ infoHandle.fieldsBehindName fileEntry) : IsField field := by
  have hzero : IsField ['0'] := by simp [IsField]
  simp only [fieldsBehindName, List.mem_cons, List.not_mem_nil, or_false] at h
  rcases h with rfl | rfl | rfl | rfl | rfl | rfl | rfl | rfl | rfl
  · exact isField_decimal _
  · exact isField_fileModeString _
  · exact hzero
  · exact hzero
  · exact isField_decimal _
  · exact isField_decimal _
  · split
    · exact isField_timeWithFraction _
    · exact isField_decimal _
  · exact hzero
  · exact isField_timeWithFraction _

theorem isField_digestHashString (digestHash : List UInt8) :
    IsField (digestHashString digestHash) := by
  have hdigit {c : Char} (h : c ∈ digestHashString digestHash) :
      isControlCharacter c.toNat = false ∧ c ≠ '\\' ∧ c ≠ '|' := by
    obtain ⟨byte, -, hmem⟩ := List.mem_flatMap.mp h
    exact toNat_of_mem_hexadecimal hmem
  constructor
  · intro h
    exact (hdigit h).2.2 rfl
  · intro h
    exact absurd (hdigit h).1 (by decide)

theorem isField_md5String {σ κ : Type} {calls : Md5Calls σ κ} {infoHandle : InfoHandle}
    {fileEntry : FileEntry} {md5 : List Char}
    (h : infoHandle.md5String calls fileEntry = .ok md5) : IsField md5 := by
  unfold md5String at h
  dsimp only at h
  split_ifs at h with hnone hfile
  · rw [← Except.ok.inj h]
    simp [IsField]
  · obtain ⟨content, -, h⟩ := bind_eq_ok_iff.mp h
    obtain ⟨context, -, h⟩ := bind_eq_ok_iff.mp h
    obtain ⟨context', -, h⟩ := bind_eq_ok_iff.mp h
    obtain ⟨digestHash, -, h⟩ := bind_eq_ok_iff.mp h
    rw [← Except.ok.inj h]
    exact isField_digestHashString _
  · rw [← Except.ok.inj h]
    simp [IsField]

/-- A bar is written as itself. -/
theorem bar_mem_escaped_iff {name : List Char} : '|' ∈ escaped name ↔ '|' ∈ name := by
  induction name with
  | nil => rfl
  | cons c name ih =>
    rw [escaped_cons, List.mem_append, List.mem_cons, ih]
    refine or_congr_left ?_
    cases hcontrol : isControlCharacter c.toNat with
    | true =>
      rw [if_pos rfl]
      refine iff_of_false ?_ ?_
      · intro h
        rcases mem_sequenceOf h with heq | heq | h
        · cases heq
        · cases heq
        · exact (toNat_of_mem_hexadecimal h).2.2 rfl
      · rintro rfl
        cases hcontrol
    | false => rw [if_neg Bool.false_ne_true, List.mem_singleton]

/-- No control character is left in what is written. -/
theorem isControlCharacter_of_mem_escaped {name : List Char} {d : Char} (h : d ∈ escaped name) :
    isControlCharacter d.toNat = false := by
  obtain ⟨c, -, hmem⟩ := List.mem_flatMap.mp h
  cases hcontrol : isControlCharacter c.toNat with
  | true =>
    rw [hcontrol, if_pos rfl] at hmem
    exact isControlCharacter_of_mem_sequenceOf hmem
  | false =>
    rw [hcontrol, if_neg Bool.false_ne_true, List.mem_singleton] at hmem
    rw [hmem, hcontrol]

/-! ### The line -/

section Line

variable {σ κ : Type} {una : InfoLibUna} (calls : Md5Calls σ κ) (infoHandle : InfoHandle)
  (fileEntry : FileEntry)

/-- The line of a file entry, without its end. -/
def lineOf (md5 : List Char) (name : List Char) : List Char :=
  ['|'].intercalate (md5 :: escaped name :: infoHandle.fieldsBehindName fileEntry)

/-- A reader finds one line of eleven fields: the MD5, one that is the name once its escape
sequences are undone, and the values of the file entry. -/
def ReadsBack (printed : List UInt8 × Except Error Unit) (md5 : List Char)
    (fields : List (List Char)) (name : List Char) : Prop :=
  printed.2 = .ok () ∧ ∃ line second : List Char,
    printed.1 = utf8.encode (line ++ ['\n']) ∧ '\n' ∉ line ∧ (line.splitOn '|').length = 11 ∧
      line.splitOn '|' = md5 :: second :: fields ∧ unescape second = name

/-- The name can be told from what is written for it, and so can its end. -/
def IsReadable (name : List Char) : Prop := '|' ∉ name ∧ HasNoSequence name

theorem fileEntryValueWithNameFprint_encode (huna : una.IsUnicode) {md5 : List Char}
    (hmd5 : infoHandle.md5String calls fileEntry = .ok md5)
    {path fileEntryName : Option (List Char)} (hpath : IsShort path)
    (hname : IsShort fileEntryName) :
    fileEntryValueWithNameFprint una calls infoHandle fileEntry (path.map utf8.encode)
        (fileEntryName.map utf8.encode) =
      (utf8.encode (lineOf infoHandle fileEntry md5 (path.getD [] ++ fileEntryName.getD []) ++
        ['\n']), .ok ()) := by
  have hprinted := (optionalNameFprint_encode huna path).trans (if_pos hpath)
  have hprinted' := (optionalNameFprint_encode huna fileEntryName).trans (if_pos hname)
  have hfields : infoHandle.fieldsBehindName fileEntry ≠ [] := List.cons_ne_nil _ _
  have hline : lineOf infoHandle fileEntry md5 (path.getD [] ++ fileEntryName.getD []) ++ ['\n'] =
      md5 ++ ['|'] ++ escaped (path.getD []) ++ escaped (fileEntryName.getD []) ++
        infoHandle.fprintBehindName fileEntry := by
    rw [lineOf, List.intercalate_cons_cons, List.intercalate_cons_of_ne_nil hfields,
      fprintBehindName_eq, escaped_append]
    simp only [List.append_assoc, List.cons_append, List.nil_append]
  rw [hline]
  simp only [fileEntryValueWithNameFprint, hmd5, hprinted, hprinted', Encoding.encode_append]

/-- Without the MD5 nothing is printed, and a name that is too long is an error. -/
theorem fileEntryValueWithNameFprint_of_error {e : Error}
    (hmd5 : infoHandle.md5String calls fileEntry = .error e)
    (path fileEntryName : Option (List UInt8)) :
    fileEntryValueWithNameFprint una calls infoHandle fileEntry path fileEntryName =
      ([], .error e) := by
  simp only [fileEntryValueWithNameFprint, hmd5]

theorem isShort_of_fileEntryValueWithNameFprint (huna : una.IsUnicode) {md5 : List Char}
    (hmd5 : infoHandle.md5String calls fileEntry = .ok md5)
    {path fileEntryName : Option (List Char)}
    (h : (fileEntryValueWithNameFprint una calls infoHandle fileEntry (path.map utf8.encode)
      (fileEntryName.map utf8.encode)).2 = .ok ()) : IsShort path ∧ IsShort fileEntryName := by
  simp only [fileEntryValueWithNameFprint, hmd5, optionalNameFprint_encode huna] at h
  by_cases hpath : (utf8.encode (path.getD [])).length ≤ (ssizeMax - 1) / 4
  · by_cases hname : (utf8.encode (fileEntryName.getD [])).length ≤ (ssizeMax - 1) / 4
    · exact ⟨hpath, hname⟩
    · rw [if_pos hpath, if_neg hname] at h
      cases h
  · rw [if_neg hpath] at h
    cases h

/-- A text that is one field has no bar. -/
theorem not_mem_of_splitOn_eq_singleton {s field : List Char} (h : s.splitOn '|' = [field]) :
    '|' ∉ s := by
  intro hmem
  obtain ⟨first, rest, rfl⟩ := List.append_of_mem hmem
  have hlength := congrArg List.length h
  have hfirst := List.length_pos_of_ne_nil (List.splitOn_ne_nil '|' first)
  have hrest := List.length_pos_of_ne_nil (List.splitOn_ne_nil '|' rest)
  rw [List.splitOn_append_cons_self, List.length_append, List.length_singleton] at hlength
  omega

/-- The fields of a line: the name may be more than one of them. -/
theorem splitOn_lineOf {md5 : List Char} (hmd5 : IsField md5) (name : List Char) :
    (lineOf infoHandle fileEntry md5 name).splitOn '|' =
      md5 :: ((escaped name).splitOn '|' ++ infoHandle.fieldsBehindName fileEntry) := by
  have hfields : infoHandle.fieldsBehindName fileEntry ≠ [] := List.cons_ne_nil _ _
  have hbars : ∀ field ∈ infoHandle.fieldsBehindName fileEntry, '|' ∉ field :=
    fun field hfield => (isField_of_mem_fieldsBehindName hfield).1
  rw [lineOf, List.intercalate_cons_cons, List.intercalate_cons_of_ne_nil hfields]
  simp only [List.append_assoc, List.singleton_append]
  rw [List.splitOn_append_cons_self_of_not_mem hmd5.1, List.splitOn_append_cons_self,
    List.splitOn_intercalate _ hbars hfields]

theorem newline_not_mem_intercalate {fields : List (List Char)}
    (h : ∀ field ∈ fields, '\n' ∉ field) : '\n' ∉ ['|'].intercalate fields := by
  induction fields with
  | nil => exact List.not_mem_nil
  | cons field fields ih =>
    obtain ⟨hfield, hrest⟩ := List.forall_mem_cons.mp h
    cases fields with
    | nil => rwa [List.intercalate_singleton]
    | cons next fields =>
      rw [List.intercalate_cons_cons, List.mem_append, List.mem_append, not_or, not_or]
      exact ⟨⟨hfield, by simp⟩, ih hrest⟩

theorem newline_not_mem_lineOf {md5 : List Char} (hmd5 : IsField md5) (name : List Char) :
    '\n' ∉ lineOf infoHandle fileEntry md5 name := by
  have hname : '\n' ∉ escaped name := fun h =>
    absurd (isControlCharacter_of_mem_escaped h) (by decide)
  apply newline_not_mem_intercalate
  refine List.forall_mem_cons.mpr ⟨hmd5.2, List.forall_mem_cons.mpr ⟨hname, ?_⟩⟩
  exact fun field hfield => (isField_of_mem_fieldsBehindName hfield).2

/-- The line of a file entry is read back if its name is readable, and only then. -/
theorem readsBack_iff (huna : una.IsUnicode) {md5 : List Char}
    (hmd5 : infoHandle.md5String calls fileEntry = .ok md5)
    (path fileEntryName : Option (List Char)) :
    ReadsBack
        (fileEntryValueWithNameFprint una calls infoHandle fileEntry (path.map utf8.encode)
          (fileEntryName.map utf8.encode))
        md5 (infoHandle.fieldsBehindName fileEntry) (path.getD [] ++ fileEntryName.getD []) ↔
      (IsShort path ∧ IsShort fileEntryName) ∧
        IsReadable (path.getD [] ++ fileEntryName.getD []) := by
  have hfield := isField_md5String hmd5
  constructor
  · rintro ⟨hok, line, second, hprinted, -, -, hsplit, hunescape⟩
    obtain ⟨hpath, hname⟩ :=
      isShort_of_fileEntryValueWithNameFprint calls infoHandle fileEntry huna hmd5 hok
    rw [fileEntryValueWithNameFprint_encode calls infoHandle fileEntry huna hmd5 hpath hname]
      at hprinted
    have hline := huna.reads.encode_injective (fun _ _ => Char.toNat_inj.mp) hprinted
    obtain rfl := List.append_cancel_right hline
    rw [splitOn_lineOf infoHandle fileEntry hfield, List.cons.injEq] at hsplit
    have hone : (escaped (path.getD [] ++ fileEntryName.getD [])).splitOn '|' = [second] :=
      List.append_cancel_right hsplit.2
    have hbar := not_mem_of_splitOn_eq_singleton hone
    rw [List.splitOn_eq_singleton hbar] at hone
    rw [← List.singleton_inj.mp hone, unescape_escaped] at hunescape
    rw [bar_mem_escaped_iff] at hbar
    exact ⟨⟨hpath, hname⟩, hbar, unescape_eq_self_iff.mp hunescape⟩
  · rintro ⟨⟨hpath, hname⟩, hbar, hsequence⟩
    have hsplit := splitOn_lineOf infoHandle fileEntry hfield
      (path.getD [] ++ fileEntryName.getD [])
    rw [List.splitOn_eq_singleton (bar_mem_escaped_iff.not.mpr hbar)] at hsplit
    rw [fileEntryValueWithNameFprint_encode calls infoHandle fileEntry huna hmd5 hpath hname]
    refine ⟨rfl, _, _, rfl, newline_not_mem_lineOf infoHandle fileEntry hfield _, ?_, hsplit, ?_⟩
    · rw [hsplit]
      rfl
    · rw [unescape_escaped]
      exact unescape_eq_self_iff.mpr hsequence

/-- Readable names that are written the same are the same. -/
theorem eq_of_escaped_eq {name other : List Char} (hname : HasNoSequence name)
    (hother : HasNoSequence other) (h : escaped name = escaped other) : name = other := by
  rw [← unescape_eq_self_iff.mpr hname, ← unescape_eq_self_iff.mpr hother, ← unescape_escaped, h,
    unescape_escaped]

end Line

/-- For every file entry whose MD5 is known, the line is read back if and only if the path and the
name are short enough to be printed, and together have neither a bar nor an escape sequence of a
control character. Readable names that are written the same are the same. -/
theorem body_file_line_reads_back_iff {σ κ : Type} {una : InfoLibUna} (huna : una.IsUnicode)
    (calls : Md5Calls σ κ) (infoHandle : InfoHandle) (fileEntry : FileEntry)
    (path fileEntryName : Option (List Char)) :
    (∀ e, infoHandle.md5String calls fileEntry = .error e →
      fileEntryValueWithNameFprint una calls infoHandle fileEntry (path.map utf8.encode)
        (fileEntryName.map utf8.encode) = ([], .error e)) ∧
    (∀ md5, infoHandle.md5String calls fileEntry = .ok md5 →
      (ReadsBack
          (fileEntryValueWithNameFprint una calls infoHandle fileEntry (path.map utf8.encode)
            (fileEntryName.map utf8.encode))
          md5 (infoHandle.fieldsBehindName fileEntry) (path.getD [] ++ fileEntryName.getD []) ↔
        (IsShort path ∧ IsShort fileEntryName) ∧
          IsReadable (path.getD [] ++ fileEntryName.getD []))) ∧
    ∀ name other, IsReadable name → IsReadable other → escaped name = escaped other →
      name = other := by
  refine ⟨?_, ?_, ?_⟩
  · intro e hmd5
    exact fileEntryValueWithNameFprint_of_error calls infoHandle fileEntry hmd5 _ _
  · intro md5 hmd5
    exact readsBack_iff calls infoHandle fileEntry huna hmd5 path fileEntryName
  · intro name other hname hother
    exact eq_of_escaped_eq hname.2 hother.2

/-- libuna on well-formed strings. -/
def wellFormedInfoLibUna : InfoLibUna :=
  ⟨wellFormedMountLibUna.copyFromUtf8, wellFormedMountLibUna.copyToUtf8⟩

theorem isUnicode_wellFormedInfoLibUna : wellFormedInfoLibUna.IsUnicode :=
  ⟨isUnicode_wellFormedMountLibUna.reads, isUnicode_wellFormedMountLibUna.writes⟩

/-- A tool that is not asked for the MD5. -/
def plainInfoHandle : InfoHandle := ⟨false, 0, .fat16⟩

def noMd5Calls : Md5Calls Unit Unit :=
  ⟨.error .getFailed, fun _ _ => .error .readFailed, .error .getFailed,
    fun _ _ => .error .getFailed, fun _ => .error .getFailed⟩

theorem isReadable_of_length_lt {name : List Char} (hbar : '|' ∉ name) (h : name.length < 4) :
    IsReadable name := by
  refine ⟨hbar, fun c _ hpart => ?_⟩
  have hle := hpart.length_le
  rw [sequenceOf_eq] at hle
  simp only [List.length_cons, List.length_nil] at hle
  omega

theorem isShort_of_length_le {name : Option (List Char)}
    (h : (utf8.encode (name.getD [])).length ≤ 4) : IsShort name := by
  have hmax : (ssizeMax - 1) / 4 = 2305843009213693951 := rfl
  unfold IsShort
  omega

theorem body_file_line_reads_back_plain :
    ReadsBack
      (fileEntryValueWithNameFprint wellFormedInfoLibUna noMd5Calls plainInfoHandle
        MountFileEntry.firstDayFileEntry (some (utf8.encode ['\\'])) (some (utf8.encode ['A'])))
      ['0'] (plainInfoHandle.fieldsBehindName MountFileEntry.firstDayFileEntry) ['\\', 'A'] := by
  have hreadable : IsReadable ['\\', 'A'] := isReadable_of_length_lt (by simp) (by decide)
  exact ((body_file_line_reads_back_iff isUnicode_wellFormedInfoLibUna noMd5Calls plainInfoHandle
    MountFileEntry.firstDayFileEntry (some ['\\']) (some ['A'])).2.1 ['0'] rfl).mpr
    ⟨⟨isShort_of_length_le (by decide), isShort_of_length_le (by decide)⟩, hreadable⟩

/-- A file `x01` of the root directory is read back as a control character, which is written the
same, and a bar of a name forges fields. -/
theorem body_file_line_forged :
    ¬ ReadsBack
        (fileEntryValueWithNameFprint wellFormedInfoLibUna noMd5Calls plainInfoHandle
          MountFileEntry.firstDayFileEntry (some (utf8.encode ['\\']))
          (some (utf8.encode ['x', '0', '1'])))
        ['0'] (plainInfoHandle.fieldsBehindName MountFileEntry.firstDayFileEntry)
        ['\\', 'x', '0', '1'] ∧
      fileEntryValueWithNameFprint wellFormedInfoLibUna noMd5Calls plainInfoHandle
          MountFileEntry.firstDayFileEntry (some (utf8.encode ['\\']))
          (some (utf8.encode ['x', '0', '1'])) =
        fileEntryValueWithNameFprint wellFormedInfoLibUna noMd5Calls plainInfoHandle
          MountFileEntry.firstDayFileEntry none (some (utf8.encode [Char.ofNat 1])) ∧
      ¬ ReadsBack
        (fileEntryValueWithNameFprint wellFormedInfoLibUna noMd5Calls plainInfoHandle
          MountFileEntry.firstDayFileEntry (some (utf8.encode ['\\']))
          (some (utf8.encode ['A', '|', '2'])))
        ['0'] (plainInfoHandle.fieldsBehindName MountFileEntry.firstDayFileEntry)
        ['\\', 'A', '|', '2'] := by
  refine ⟨?_, ?_, ?_⟩
  · intro h
    have hreadable := ((readsBack_iff noMd5Calls plainInfoHandle MountFileEntry.firstDayFileEntry
      isUnicode_wellFormedInfoLibUna rfl (some ['\\']) (some ['x', '0', '1'])).mp h).2
    refine hreadable.2 (Char.ofNat 1) rfl ?_
    rw [sequenceOf_eq]
    exact List.infix_rfl
  · have hpath : IsShort (some ['\\']) := isShort_of_length_le (by decide)
    have hname : IsShort (some ['x', '0', '1']) := isShort_of_length_le (by decide)
    have hnone : IsShort none := isShort_of_length_le (by decide)
    have hcontrol : IsShort (some [Char.ofNat 1]) := isShort_of_length_le (by decide)
    have hmd5 : plainInfoHandle.md5String noMd5Calls MountFileEntry.firstDayFileEntry =
        .ok ['0'] := rfl
    have hfirst := fileEntryValueWithNameFprint_encode noMd5Calls _ _
      isUnicode_wellFormedInfoLibUna hmd5 hpath hname
    have hsecond := fileEntryValueWithNameFprint_encode noMd5Calls _ _
      isUnicode_wellFormedInfoLibUna hmd5 hnone hcontrol
    exact hfirst.trans hsecond.symm
  · intro h
    have hreadable := ((readsBack_iff noMd5Calls plainInfoHandle MountFileEntry.firstDayFileEntry
      isUnicode_wellFormedInfoLibUna rfl (some ['\\']) (some ['A', '|', '2'])).mp h).2
    exact hreadable.1 (by simp)

end InfoHandle

end FsFat
