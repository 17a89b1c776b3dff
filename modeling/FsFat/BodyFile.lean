import FsFat.FileEntryData
import FsFat.MountFileEntry
import FsFat.MountPathRoundTrip
import FsFat.PathIteration

/-!
The body file of the information tool: `info_handle.c`, on a system whose strings are in UTF-8.
A file entry has one line of eleven fields with a bar between them. In its name a control
character is written as an escape sequence, and every other character as itself.
-/

namespace FsFat

open MountPathString

/-- The functions of libuna that the information tool uses. -/
structure InfoLibUna where
  copyFromUtf8 : List UInt8 → Nat → Except Error (Nat × Nat)
  copyToUtf8 : Nat → Nat → Except Error (List UInt8)

/-- libuna reads and writes characters in UTF-8. -/
structure InfoLibUna.IsUnicode (una : InfoLibUna) : Prop where
  reads : utf8.IsReadBy Char.toNat una.copyFromUtf8
  writes : ∀ (c : Char) (room : Nat), (utf8.encodeSymbol c).length ≤ room →
    una.copyToUtf8 c.toNat room = .ok (utf8.encodeSymbol c)

/-- `info_handle_t`, with a body file. -/
structure InfoHandle where
  calculateMd5 : Bool
  rootDirectoryIdentifier : UInt64
  fileSystemFormat : FileSystemFormat
  deriving DecidableEq

/-- `LIBFSFAT_FILE_ATTRIBUTE_FLAG_READ_ONLY`. -/
def fileAttributeFlagReadOnly : Nat := 0x01

/-- `LIBFSFAT_FILE_ATTRIBUTE_FLAG_SYSTEM`. -/
def fileAttributeFlagSystem : Nat := 0x04

namespace InfoHandle

/-! ### The name -/

/-- The characters that are written as an escape sequence. -/
def isControlCharacter (character : Nat) : Bool :=
  character ≤ 0x1f ∨ (0x7f ≤ character ∧ character ≤ 0x9f)

/-- What is written for a character of a name. -/
def escapeNameCharacter (una : InfoLibUna) (room character : Nat) : Except Error (List UInt8) :=
  if isControlCharacter character then .ok ((escapeSequence 0x78 2 character).map UInt8.ofNat)
  else una.copyToUtf8 character room

/-- The loop over the characters of a name. -/
def escapeNameCharacters (una : InfoLibUna) (valueString : List UInt8)
    (escapedValueStringSize : Nat) : Nat → Nat → List UInt8 → Except Error (List UInt8)
  | 0, _, _ => .error .iterationLimit
  | count + 1, valueStringIndex, escapedValueString =>
    if valueStringIndex < valueString.length then do
      let (character, valueStringIndex) ← una.copyFromUtf8 valueString valueStringIndex
      let written ←
        escapeNameCharacter una (escapedValueStringSize - escapedValueString.length) character
      escapeNameCharacters una valueString escapedValueStringSize count valueStringIndex
        (escapedValueString ++ written)
    else .ok escapedValueString

/-- `info_handle_name_value_fprint`: what is printed. -/
def nameValueFprint (una : InfoLibUna) (valueString : List UInt8) : Except Error (List UInt8) :=
  if valueString.length > (ssizeMax - 1) / 4 then .error .valueExceedsMaximum
  else
    let escapedValueStringSize := valueString.length * 4 + 1
    escapeNameCharacters una valueString escapedValueStringSize (valueString.length + 1) 0 []

/-- A name that is not there is not printed. -/
def optionalNameFprint (una : InfoLibUna) : Option (List UInt8) → Except Error (List UInt8)
  | none => .ok []
  | some valueString => nameValueFprint una valueString

/-! ### The MD5 of the contents -/

/-- What the calculation calls: the functions of the file entry, whose content has an offset, and
those of libhmac. -/
structure Md5Calls (σ κ : Type) where
  seekStart : Except Error σ
  readBuffer : σ → Nat → Except Error (List UInt8 × σ)
  createContext : Except Error κ
  update : κ → List UInt8 → Except Error κ
  finalize : κ → Except Error (Vector UInt8 16)

/-- The loop over the contents, with `count` reads left. -/
def updateMd5 {σ κ : Type} (calls : Md5Calls σ κ) : Nat → Nat → σ → κ → Except Error κ
  | 0, _, _, context => .ok context
  | count + 1, dataSize, content, context => do
    let readSize := min 4096 dataSize
    let (buffer, content) ← calls.readBuffer content readSize
    if buffer.length ≠ readSize then .error .readFailed
    else do
      let context ← calls.update context buffer
      updateMd5 calls count (dataSize - readSize) content context

/-- `digest_hash_copy_to_string`. -/
def digestHashString (digestHash : List UInt8) : List Char :=
  digestHash.flatMap fun byte => ascii (hexadecimal 2 byte.toNat)

/-- `info_handle_file_entry_calculate_md5`. -/
def fileEntryCalculateMd5 {σ κ : Type} (calls : Md5Calls σ κ) (fileEntry : FileEntry) :
    Except Error (List Char) := do
  let content ← calls.seekStart
  let context ← calls.createContext
  let count := (fileEntry.getSize + 4095) / 4096
  let context ← updateMd5 calls count fileEntry.getSize content context
  let digestHash ← calls.finalize context
  pure (digestHashString digestHash.toList)

/-- The string for the MD5: only the contents of a file have one. -/
def md5String {σ κ : Type} (calls : Md5Calls σ κ) (infoHandle : InfoHandle)
    (fileEntry : FileEntry) : Except Error (List Char) :=
  let flags := fileEntry.getFileAttributeFlags.getD 0
  if infoHandle.calculateMd5 = false then .ok ['0']
  else if flags &&& fileAttributeFlagVolumeLabel = 0 ∧ flags &&& fileAttributeFlagDirectory = 0 ∧
      flags &&& fileAttributeFlagDevice = 0 then
    fileEntryCalculateMd5 calls fileEntry
  else .ok (List.replicate 32 '0')

/-! ### The line -/

/-- The metadata address of the body file. -/
def metadataAddress (infoHandle : InfoHandle) (fileEntry : FileEntry) : UInt64 :=
  let identifier := UInt64.ofNat fileEntry.identifier - infoHandle.rootDirectoryIdentifier
  if identifier = 0 then 2 else identifier / 32 + 3

/-- A time that is set, in 10 millisecond intervals since 1970. -/
def bodyFileTime (time : Option UInt64) : UInt64 :=
  let time := time.getD 0
  if time ≠ 0 then time + 31553280000 else time

/-- `file_mode_string`. -/
def fileModeString (flags : Nat) : List Char :=
  let first := if flags &&& fileAttributeFlagDirectory ≠ 0 then 'd' else '-'
  let write := if flags &&& fileAttributeFlagReadOnly ≠ 0 ∨ flags &&& fileAttributeFlagSystem ≠ 0
    then '-' else 'w'
  [first, 'r', write, 'x', 'r', write, 'x', 'r', write, 'x']

/-- What `PRIu64` prints. -/
def decimal (value : UInt64) : List Char := Nat.toDigits 10 value.toNat

/-- What `PRIu64` prints with two digits at least. -/
def twoDigits (value : UInt64) : List Char :=
  if value < 10 then '0' :: decimal value else decimal value

/-- The seconds of a time, and the seconds with their fraction. -/
def timeSeconds (time : UInt64) : List Char := decimal (time / 100)

def timeWithFraction (time : UInt64) : List Char :=
  decimal (time / 100) ++ '.' :: twoDigits (time % 100)

/-- What is printed behind the name. -/
def fprintBehindName (infoHandle : InfoHandle) (fileEntry : FileEntry) : List Char :=
  let modificationTime := bodyFileTime fileEntry.getModificationTime
  let accessTime := bodyFileTime fileEntry.getAccessTime
  let creationTime := bodyFileTime fileEntry.getCreationTime
  '|' :: decimal (infoHandle.metadataAddress fileEntry) ++
    '|' :: fileModeString (fileEntry.getFileAttributeFlags.getD 0) ++ '|' :: '0' :: '|' :: '0' ::
    '|' :: decimal (UInt64.ofNat fileEntry.getSize) ++ '|' :: timeSeconds accessTime ++
    '|' :: (if infoHandle.fileSystemFormat = .exfat then timeWithFraction modificationTime
      else timeSeconds modificationTime) ++
    '|' :: '0' :: '|' :: timeWithFraction creationTime ++ ['\n']

/-- `info_handle_file_entry_value_with_name_fprint`: what is printed into the body file, and the
result. -/
def fileEntryValueWithNameFprint {σ κ : Type} (una : InfoLibUna) (calls : Md5Calls σ κ)
    (infoHandle : InfoHandle) (fileEntry : FileEntry) (path fileEntryName : Option (List UInt8)) :
    List UInt8 × Except Error Unit :=
  match infoHandle.md5String calls fileEntry with
  | .error e => ([], .error e)
  | .ok md5String =>
    let first := utf8.encode (md5String ++ ['|'])
    match optionalNameFprint una path with
    | .error e => (first, .error e)
    | .ok printedPath =>
      match optionalNameFprint una fileEntryName with
      | .error e => (first ++ printedPath, .error e)
      | .ok printedName =>
        (first ++ printedPath ++ printedName ++
          utf8.encode (infoHandle.fprintBehindName fileEntry), .ok ())

/-! ### Escape sequences in a text -/

/-- The escape sequence of a control character. -/
def sequenceOf (c : Char) : List Char := ascii (escapeSequence 0x78 2 c.toNat)

/-- What a name is written as. -/
def escaped (name : List Char) : List Char :=
  name.flatMap fun c => if isControlCharacter c.toNat then sequenceOf c else [c]

/-- The control character that two digits stand for. -/
def escapedValue (high low : Char) : Option Char :=
  match digitValue high.toNat, digitValue low.toNat with
  | some high, some low =>
    if isControlCharacter (high * 16 + low) then some (Char.ofNat (high * 16 + low)) else none
  | _, _ => none

/-- The escape sequences of a text are undone. Nothing else is changed. -/
def unescape : List Char → List Char
  | '\\' :: 'x' :: high :: low :: s =>
    match escapedValue high low with
    | some c => c :: unescape s
    | none => '\\' :: unescape ('x' :: high :: low :: s)
  | c :: s => c :: unescape s
  | [] => []

/-- A text that has no escape sequence of a control character. -/
def HasNoSequence (s : List Char) : Prop :=
  ∀ c : Char, isControlCharacter c.toNat = true → ¬ sequenceOf c <:+: s

theorem digitValue_eq_some {character digit : Nat} (h : digitValue character = some digit) :
    digit < 16 ∧ hexadecimalDigit digit = character := by
  unfold digitValue at h
  unfold hexadecimalDigit
  split_ifs at h with hnumber hletter
  · obtain rfl := Option.some.inj h
    rw [if_pos (by omega)]
    omega
  · obtain rfl := Option.some.inj h
    rw [if_neg (by omega)]
    omega

theorem toNat_ofNat_of_lt_surrogates {value : Nat} (h : value < 0xd800) :
    (Char.ofNat value).toNat = value := by
  have hvalid : value.isValidChar := Or.inl h
  rw [Char.ofNat, dif_pos hvalid]
  rfl

theorem lt_of_isControlCharacter {character : Nat} (h : isControlCharacter character = true) :
    character < 256 := by
  simp only [isControlCharacter, decide_eq_true_eq] at h
  omega

theorem sequenceOf_eq (c : Char) : sequenceOf c =
    ['\\', 'x', Char.ofNat (hexadecimalDigit (c.toNat / 16 % 16)),
      Char.ofNat (hexadecimalDigit (c.toNat % 16))] := by
  simp only [sequenceOf, escapeSequence, hexadecimal, ascii, List.map_cons, List.map_nil,
    Nat.pow_zero, Nat.pow_one, Nat.div_one]
  rfl

/-- The digits that stand for a control character are those of its escape sequence. -/
theorem escapedValue_eq_some_iff {high low c : Char} :
    escapedValue high low = some c ↔
      isControlCharacter c.toNat = true ∧ sequenceOf c = ['\\', 'x', high, low] := by
  rw [sequenceOf_eq]
  constructor
  · intro h
    unfold escapedValue at h
    split at h
    · next first second hfirst hsecond =>
      split at h
      · next hcontrol =>
        obtain ⟨hlt, hhigh⟩ := digitValue_eq_some hfirst
        obtain ⟨hlt', hlow⟩ := digitValue_eq_some hsecond
        have hvalue : c.toNat = first * 16 + second := by
          rw [← Option.some.inj h]
          exact toNat_ofNat_of_lt_surrogates (by omega)
        have hdiv : c.toNat / 16 % 16 = first := by omega
        have hmod : c.toNat % 16 = second := by omega
        refine ⟨by rwa [hvalue], ?_⟩
        rw [hdiv, hmod, hhigh, hlow, Char.ofNat_toNat, Char.ofNat_toNat]
      · cases h
    · cases h
  · rintro ⟨hcontrol, hsequence⟩
    have hlt := lt_of_isControlCharacter hcontrol
    simp only [List.cons.injEq, and_true, true_and] at hsequence
    obtain ⟨rfl, rfl⟩ := hsequence
    have hdigit {digit : Nat} (h : digit < 16) :
        digitValue (Char.ofNat (hexadecimalDigit digit)).toNat = some digit := by
      rw [toNat_ofNat_of_lt (hexadecimalDigit_lt h), digitValue_hexadecimalDigit h]
    have hvalue : c.toNat / 16 % 16 * 16 + c.toNat % 16 = c.toNat := by omega
    rw [escapedValue, hdigit (Nat.mod_lt _ (by omega)), hdigit (Nat.mod_lt _ (by omega))]
    simp only [hvalue, hcontrol, if_true, Char.ofNat_toNat]

theorem unescape_sequenceOf {c : Char} (h : isControlCharacter c.toNat = true) (s : List Char) :
    unescape (sequenceOf c ++ s) = c :: unescape s := by
  have hvalue := escapedValue_eq_some_iff.mpr ⟨h, sequenceOf_eq c⟩
  rw [sequenceOf_eq]
  simp only [List.cons_append, List.nil_append, unescape, hvalue]

/-- A character that does not begin an escape sequence stays as it is. -/
theorem unescape_cons {c : Char} {s : List Char}
    (h : ∀ d : Char, isControlCharacter d.toNat = true → ¬ sequenceOf d <+: c :: s) :
    unescape (c :: s) = c :: unescape s := by
  rw [unescape.eq_def (c :: s)]
  split
  · next high low rest heq =>
    injection heq with hc hs
    subst hc hs
    cases hvalue : escapedValue high low with
    | none => rfl
    | some d =>
      obtain ⟨hcontrol, hsequence⟩ := escapedValue_eq_some_iff.mp hvalue
      apply absurd _ (h d hcontrol)
      rw [hsequence]
      exact ⟨rest, rfl⟩
  · next heq =>
    injection heq with hc hs
    rw [hc, hs]
  · next heq => cases heq

theorem length_unescape_le (s : List Char) : (unescape s).length ≤ s.length := by
  induction s using unescape.induct with
  | case1 high low s c hvalue ih =>
    simp only [unescape, hvalue, List.length_cons]
    omega
  | case2 high low s hvalue ih =>
    simp only [unescape, hvalue, List.length_cons] at ih ⊢
    omega
  | case3 c s hne ih =>
    simp only [unescape, List.length_cons]
    omega
  | case4 => exact Nat.le_refl 0

/-- Undoing escape sequences changes every text that has one. -/
theorem unescape_eq_self_iff {s : List Char} : unescape s = s ↔ HasNoSequence s := by
  induction s with
  | nil =>
    refine iff_of_true rfl fun c _ hpart => ?_
    rw [sequenceOf_eq] at hpart
    exact List.cons_ne_nil _ _ (List.infix_nil.mp hpart)
  | cons c s ih =>
    by_cases hhead : ∃ d : Char, isControlCharacter d.toNat = true ∧ sequenceOf d <+: c :: s
    · obtain ⟨d, hd, hbegin⟩ := hhead
      refine iff_of_false ?_ fun h => h d hd hbegin.isInfix
      obtain ⟨rest, hrest⟩ := hbegin
      have hle := length_unescape_le rest
      intro heq
      have hlength := congrArg List.length heq
      rw [← hrest, unescape_sequenceOf hd, sequenceOf_eq] at hlength
      simp only [List.length_append, List.length_cons, List.length_nil] at hlength
      omega
    · have hnone (d : Char) (hd : isControlCharacter d.toNat = true) : ¬ sequenceOf d <+: c :: s :=
        fun hbegin => hhead ⟨d, hd, hbegin⟩
      rw [unescape_cons hnone, List.cons.injEq, and_iff_right rfl, ih]
      constructor
      · intro h d hd hpart
        rcases List.infix_cons_iff.mp hpart with hbegin | hpart
        · exact hnone d hd hbegin
        · exact h d hd hpart
      · intro h d hd hpart
        exact h d hd (hpart.trans (List.suffix_cons c s).isInfix)

theorem escaped_cons (c : Char) (s : List Char) :
    escaped (c :: s) = (if isControlCharacter c.toNat then sequenceOf c else [c]) ++ escaped s :=
  List.flatMap_cons

@[simp] theorem escaped_append (s t : List Char) : escaped (s ++ t) = escaped s ++ escaped t :=
  List.flatMap_append

theorem bounds_of_mem_hexadecimal {count value digit : Nat} (h : digit ∈ hexadecimal count value) :
    (0x30 ≤ digit ∧ digit < 0x3a) ∨ (0x61 ≤ digit ∧ digit < 0x67) := by
  induction count with
  | zero => cases h
  | succ count ih =>
    rcases List.mem_cons.mp h with rfl | h
    · have hdigit : value / 16 ^ count % 16 < 16 := Nat.mod_lt _ (by omega)
      unfold hexadecimalDigit
      split <;> omega
    · exact ih h

/-- The digits of an escape sequence are neither control characters nor escape characters nor
bars. -/
theorem toNat_of_mem_hexadecimal {count value : Nat} {d : Char}
    (h : d ∈ ascii (hexadecimal count value)) :
    isControlCharacter d.toNat = false ∧ d ≠ '\\' ∧ d ≠ '|' := by
  have hmem := toNat_of_mem_ascii hexadecimal_lt h
  have hbounds := bounds_of_mem_hexadecimal hmem
  refine ⟨?_, ?_, ?_⟩
  · simp only [isControlCharacter, decide_eq_false_iff_not]
    omega
  · rintro rfl
    exact absurd hbounds (by decide)
  · rintro rfl
    exact absurd hbounds (by decide)

theorem mem_sequenceOf {c d : Char} (h : d ∈ sequenceOf c) :
    d = '\\' ∨ d = 'x' ∨ d ∈ ascii (hexadecimal 2 c.toNat) := by
  rcases List.mem_cons.mp h with heq | h
  · exact Or.inl heq
  · exact Or.inr (List.mem_cons.mp h)

theorem isControlCharacter_of_mem_sequenceOf {c d : Char} (h : d ∈ sequenceOf c) :
    isControlCharacter d.toNat = false := by
  rcases mem_sequenceOf h with rfl | rfl | h
  · rfl
  · rfl
  · exact (toNat_of_mem_hexadecimal h).1

theorem escaped_sequenceOf (c : Char) : escaped (sequenceOf c) = sequenceOf c := by
  have hself (s : List Char) (h : ∀ d ∈ s, isControlCharacter d.toNat = false) : escaped s = s := by
    induction s with
    | nil => rfl
    | cons d s ih =>
      obtain ⟨hd, hs⟩ := List.forall_mem_cons.mp h
      rw [escaped_cons, ih hs, hd]
      rfl
  exact hself _ fun d hd => isControlCharacter_of_mem_sequenceOf hd

/-- What is written has a text without an escape character at its begin only where the name has
it. -/
theorem prefix_of_prefix_escaped {t s : List Char} (ht : '\\' ∉ t) (h : t <+: escaped s) :
    t <+: s := by
  induction t generalizing s with
  | nil => exact List.nil_prefix
  | cons d t ih =>
    rw [List.mem_cons, not_or] at ht
    cases s with
    | nil => exact absurd (List.prefix_nil.mp h) (List.cons_ne_nil d t)
    | cons c s =>
      rw [escaped_cons] at h
      cases hcontrol : isControlCharacter c.toNat with
      | true =>
        rw [hcontrol, if_pos rfl, sequenceOf_eq] at h
        exact absurd (List.cons_prefix_cons.mp h).1 (Ne.symm ht.1)
      | false =>
        rw [hcontrol, if_neg Bool.false_ne_true, List.singleton_append] at h
        obtain ⟨rfl, htail⟩ := List.cons_prefix_cons.mp h
        exact List.cons_prefix_cons.mpr ⟨rfl, ih ht.2 htail⟩

/-- Undoing the escape sequences of what is written is the same as undoing those of the name. -/
theorem unescape_escaped (s : List Char) : unescape (escaped s) = unescape s := by
  induction hlength : s.length using Nat.strong_induction_on generalizing s with
  | _ length ih =>
    cases s with
    | nil => rfl
    | cons c s =>
      have htail := ih s.length (by rw [← hlength]; exact Nat.lt_succ_self _) s rfl
      by_cases hhead : ∃ d : Char, isControlCharacter d.toNat = true ∧ sequenceOf d <+: c :: s
      · obtain ⟨d, hd, rest, hrest⟩ := hhead
        have hless : rest.length < length := by
          rw [← hlength, ← hrest, sequenceOf_eq]
          simp only [List.length_append, List.length_cons, List.length_nil]
          omega
        rw [← hrest, escaped_append, escaped_sequenceOf, unescape_sequenceOf hd,
          unescape_sequenceOf hd, ih _ hless rest rfl]
      · have hnone (d : Char) (hd : isControlCharacter d.toNat = true) :
            ¬ sequenceOf d <+: c :: s := fun hbegin => hhead ⟨d, hd, hbegin⟩
        rw [unescape_cons hnone, escaped_cons]
        cases hcontrol : isControlCharacter c.toNat with
        | true => rw [if_pos rfl, unescape_sequenceOf hcontrol, htail]
        | false =>
          rw [if_neg Bool.false_ne_true, List.singleton_append, unescape_cons, htail]
          -- an escape sequence that began here would begin in the name too
          intro d hd hbegin
          apply hnone d hd
          obtain ⟨rfl, hdigits⟩ := List.cons_prefix_cons.mp hbegin
          refine List.cons_prefix_cons.mpr ⟨rfl, prefix_of_prefix_escaped ?_ hdigits⟩
          intro hmem
          rcases List.mem_cons.mp hmem with heq | hmem
          · cases heq
          · exact (toNat_of_mem_hexadecimal hmem).2.1 rfl

end InfoHandle

end FsFat
