import FsFat.PathNames

/-!
Paths of the mount tool: `mount_path_string.c`, on a system whose separator is a
slash. A name is written with escape sequences for the characters that cannot be
shown or that the path separates names with. A path is written back with the
characters themselves and with the separator of the library, which is the escape
character too.
-/

namespace FsFat

open Bytes

/-- `LIBCPATH_SEPARATOR`, a slash. -/
def libcpathSeparator : Nat := 0x2f

/-- `ESCAPE_CHARACTER`, a backslash. -/
def escapeCharacter : Nat := 0x5c

/-- The functions of libuna that the mount tool uses besides. A character is
written with the room that is left for it. A string ends with an end of string
character. -/
structure MountLibUna extends LibUna where
  copyToUtf8 : Nat → Nat → Except Error (List UInt8)
  utf8StringFromUtf16Stream : List UInt8 → Except Error (List UInt8)
  utf8StringFromByteStream : List UInt8 → Except Error (List UInt8)

/-- The UTF-8 string of a name. -/
def MountLibUna.utf8String (una : MountLibUna) (isUnicode : Bool) :
    List UInt8 → Except Error (List UInt8) :=
  if isUnicode then una.utf8StringFromUtf16Stream else una.utf8StringFromByteStream

/-- The characters in front of the first end of string character. -/
def upToNul (s : List Char) : List Char := s.takeWhile fun c => c.toNat ≠ 0

/-- libuna reads and writes characters in UTF-8. The string of a name has the
characters of the name, in any case those in front of an end of string
character. -/
structure MountLibUna.IsUnicode (una : MountLibUna) : Prop where
  reads : utf8.IsReadBy Char.toNat una.copyFromUtf8
  writes : ∀ (c : Char) (room : Nat), (utf8.encodeSymbol c).length ≤ room →
    una.copyToUtf8 c.toNat room = .ok (utf8.encodeSymbol c)
  names : ∀ (isUnicode : Bool) (name : List UInt8) (s : List Char),
    0 < name.length → name.length ≤ ssizeMax → Name.Reads una.toLibUna isUnicode name s →
    ∃ string, upToNul string = upToNul s ∧
      una.utf8String isUnicode name = .ok (utf8.encode string ++ [0])

namespace MountPathString

/-! ### Hexadecimal values -/

/-- What `sprintf` prints for a digit. -/
def hexadecimalDigit (digit : Nat) : Nat := if digit < 10 then 0x30 + digit else 0x57 + digit

/-- What `sprintf` prints for a value of at most `count` digits. -/
def hexadecimal : Nat → Nat → List Nat
  | 0, _ => []
  | count + 1, value => hexadecimalDigit (value / 16 ^ count % 16) :: hexadecimal count value

/-- The value of a digit. Only lower case letters are supported. -/
def digitValue (character : Nat) : Option Nat :=
  if 0x30 ≤ character ∧ character ≤ 0x39 then some (character - 0x30)
  else if 0x61 ≤ character ∧ character ≤ 0x66 then some (character - 0x61 + 10)
  else none

/-- The loop over the characters of a string of digits. -/
def copyDigits : List UInt8 → Nat → Except Error Nat
  | [], value => .ok value
  | character :: string, value =>
    match digitValue character.toNat with
    | some digit => copyDigits string (value * 2 ^ 4 % 2 ^ 32 + digit)
    | none => .error .unsupportedValue

/-- `mount_path_string_copy_hexadecimal_to_integer_32_bit`. -/
def copyHexadecimalToInteger32Bit (string : List UInt8) : Except Error Nat :=
  if string.length = 0 ∨ string.length > ssizeMax then .error .valueOutOfBounds
  else copyDigits string 0

/-! ### Escape sequences -/

/-- The characters that are written with two digits. -/
def isEscapedByTwoDigits (character : Nat) : Bool :=
  character ≤ 0x1f ∨ character = libcpathSeparator ∨ (0x7f ≤ character ∧ character ≤ 0x9f)

/-- The values of two digits that are read. -/
def isValueOfTwoDigits (value : Nat) : Bool :=
  (0x01 ≤ value ∧ value ≤ 0x1f) ∨ value = libcpathSeparator ∨ (0x7f ≤ value ∧ value ≤ 0x9f)

/-- Surrogate characters, undefined characters and characters that were observed
to be unprintable. They are written, and read, with eight digits. -/
def isUnprintable (character : Nat) : Bool :=
  (0x2028 ≤ character ∧ character ≤ 0x2029) ∨ (0xd800 ≤ character ∧ character ≤ 0xdfff) ∨
    character = 0xe000 ∨ character = 0xf8ff ∨ (0xfdd0 ≤ character ∧ character ≤ 0xfddf) ∨
    (0xfffe ≤ character % 2 ^ 16 ∧ character % 2 ^ 16 ≤ 0xffff) ∨ character = 0xf0000 ∨
    character = 0xffffd ∨ character = 0x100000 ∨ 0x10fffd ≤ character

/-- The escape character, a letter and digits. -/
def escapeSequence (letter count value : Nat) : List Nat :=
  escapeCharacter :: letter :: hexadecimal count value

/-- What is written for a character of a name. -/
def escape (una : MountLibUna) (room character : Nat) : Except Error (List UInt8) :=
  if isEscapedByTwoDigits character then .ok ((escapeSequence 0x78 2 character).map UInt8.ofNat)
  else if isUnprintable character then .ok ((escapeSequence 0x55 8 character).map UInt8.ofNat)
  else if character = escapeCharacter then
    if room < 2 then .error .valueOutOfBounds
    else .ok ([escapeCharacter, character].map UInt8.ofNat)
  else una.copyToUtf8 character room

/-- The value of the digits at the index, and the index behind them. -/
def unescapeDigits (path : List UInt8) (index count : Nat) (isValue : Nat → Bool) :
    Except Error (Nat × Nat) :=
  if index + count > path.length then .error .valueOutOfBounds
  else do
    let value ← copyHexadecimalToInteger32Bit ((path.drop index).take count)
    if isValue value then pure (value, index + count) else .error .valueOutOfBounds

/-- The value of an escape sequence, and the index behind it. The index is that
behind the escape character. -/
def unescape (path : List UInt8) (index : Nat) : Except Error (Nat × Nat) :=
  if index + 1 > path.length then .error .valueOutOfBounds
  else
    let character := byteAt path index
    if character = escapeCharacter then .ok (character, index + 1)
    else if character = 0x78 then unescapeDigits path (index + 1) 2 isValueOfTwoDigits
    else if character = 0x55 then unescapeDigits path (index + 1) 8 isUnprintable
    else .error .unsupportedValue

/-! ### Names and paths -/

/-- The loop over the characters of a file entry path. -/
def copyFromCharacters (una : MountLibUna) (fileEntryPath : List UInt8) (pathSize : Nat) :
    Nat → Nat → List UInt8 → Except Error (List UInt8)
  | 0, _, _ => .error .iterationLimit
  | count + 1, fileEntryPathIndex, path =>
    if fileEntryPathIndex < fileEntryPath.length then do
      let (character, fileEntryPathIndex) ← una.copyFromUtf8 fileEntryPath fileEntryPathIndex
      if character = 0 then pure path
      else do
        let written ← escape una (pathSize - path.length) character
        copyFromCharacters una fileEntryPath pathSize count fileEntryPathIndex (path ++ written)
    else .ok path

/-- `mount_path_string_copy_from_file_entry_path`: the path without its end of
string character. A character is written with ten at most. -/
def copyFromFileEntryPath (una : MountLibUna) (fileEntryPath : List UInt8) :
    Except Error (List UInt8) :=
  let fileEntryPathLength := fileEntryPath.length
  if fileEntryPathLength = 0 ∨ fileEntryPathLength > ssizeMax - 1 then .error .valueOutOfBounds
  else if fileEntryPathLength > (ssizeMax - 1) / 10 then .error .valueExceedsMaximum
  else do
    let pathSize := fileEntryPathLength * 10 + 1
    let path ← copyFromCharacters una fileEntryPath pathSize (fileEntryPathLength + 1) 0 []
    if path.length ≥ pathSize then .error .valueOutOfBounds else pure path

/-- The character that is copied for the one at the index, and the index behind
it. -/
def copyPathCharacter (una : MountLibUna) (path : List UInt8) (pathIndex : Nat) :
    Except Error (Nat × Nat) := do
  let (character, pathIndex) ← una.copyFromUtf8 path pathIndex
  if character = libcpathSeparator then pure (separator, pathIndex)
  else if character = escapeCharacter then unescape path pathIndex
  else pure (character, pathIndex)

/-- The loop over the characters of a path. -/
def copyToCharacters (una : MountLibUna) (path : List UInt8) (fileEntryPathSize : Nat) :
    Nat → Nat → List UInt8 → Except Error (List UInt8)
  | 0, _, _ => .error .iterationLimit
  | count + 1, pathIndex, fileEntryPath =>
    if pathIndex < path.length then do
      let (character, pathIndex) ← copyPathCharacter una path pathIndex
      let written ← una.copyToUtf8 character (fileEntryPathSize - fileEntryPath.length)
      copyToCharacters una path fileEntryPathSize count pathIndex (fileEntryPath ++ written)
    else .ok fileEntryPath

/-- `mount_path_string_copy_to_file_entry_path`: the file entry path without its
end of string character. -/
def copyToFileEntryPath (una : MountLibUna) (path : List UInt8) : Except Error (List UInt8) :=
  let pathLength := path.length
  if pathLength = 0 ∨ pathLength > ssizeMax - 1 then .error .valueOutOfBounds
  else if byteAt path 0 ≠ libcpathSeparator then .error .unsupportedValue
  else do
    let fileEntryPathSize := pathLength + 1
    if fileEntryPathSize > ssizeMax then .error .valueExceedsMaximum
    else do
      let fileEntryPath ← copyToCharacters una path fileEntryPathSize (pathLength + 1) 0 []
      if fileEntryPath.length ≥ fileEntryPathSize then .error .valueOutOfBounds
      else pure fileEntryPath

/-! ### Reading the digits back -/

theorem hexadecimalDigit_lt {digit : Nat} (h : digit < 16) : hexadecimalDigit digit < 0x80 := by
  unfold hexadecimalDigit
  split <;> omega

theorem digitValue_hexadecimalDigit {digit : Nat} (h : digit < 16) :
    digitValue (hexadecimalDigit digit) = some digit := by
  unfold digitValue hexadecimalDigit
  by_cases hten : digit < 10
  · rw [if_pos hten, if_pos (by omega)]
    simp
  · rw [if_neg hten, if_neg (by omega), if_pos (by omega)]
    simp only [Option.some.injEq]
    omega

theorem hexadecimal_lt {count value : Nat} : ∀ digit ∈ hexadecimal count value, digit < 0x80 := by
  induction count with
  | zero => simp [hexadecimal]
  | succ count ih =>
    rw [hexadecimal]
    refine List.forall_mem_cons.mpr ⟨?_, ih⟩
    exact hexadecimalDigit_lt (Nat.mod_lt _ (by omega))

@[simp] theorem length_hexadecimal (count value : Nat) :
    (hexadecimal count value).length = count := by
  induction count with
  | zero => rfl
  | succ count ih => rw [hexadecimal, List.length_cons, ih]

/-- The digits of a value behind digits that were read already. -/
theorem copyDigits_hexadecimal (count value first : Nat)
    (hfirst : first * 16 ^ count + value % 16 ^ count < 2 ^ 32) :
    copyDigits ((hexadecimal count value).map UInt8.ofNat) first =
      .ok (first * 16 ^ count + value % 16 ^ count) := by
  induction count generalizing first with
  | zero => simp [hexadecimal, copyDigits, Nat.mod_one]
  | succ count ih =>
    have hdigit : value / 16 ^ count % 16 < 16 := Nat.mod_lt _ (by omega)
    have hbyte : (UInt8.ofNat (hexadecimalDigit (value / 16 ^ count % 16))).toNat =
        hexadecimalDigit (value / 16 ^ count % 16) := by
      have hlt := hexadecimalDigit_lt hdigit
      rw [UInt8.toNat_ofNat']
      omega
    -- the digit is the value without the digits behind it
    have hsplit : value % 16 ^ (count + 1) =
        value / 16 ^ count % 16 * 16 ^ count + value % 16 ^ count := by
      rw [Nat.pow_succ, Nat.mod_mul, Nat.add_comm, Nat.mul_comm]
    have hnext : (first * 2 ^ 4 + value / 16 ^ count % 16) * 16 ^ count + value % 16 ^ count =
        first * 16 ^ (count + 1) + value % 16 ^ (count + 1) := by
      rw [hsplit]
      ring
    have hmod : first * 2 ^ 4 % 2 ^ 32 = first * 2 ^ 4 := by
      apply Nat.mod_eq_of_lt
      have hle : first * 2 ^ 4 ≤ first * 16 ^ (count + 1) := by
        apply Nat.mul_le_mul_left
        exact Nat.le_self_pow (by omega) 16
      omega
    rw [hexadecimal, List.map_cons, copyDigits, hbyte, digitValue_hexadecimalDigit hdigit]
    simp only [hmod]
    rw [ih _ (by rw [hnext]; exact hfirst), hnext]

theorem copyHexadecimalToInteger32Bit_hexadecimal {count value : Nat} (hcount : 0 < count)
    (hmax : count ≤ 8) (hvalue : value < 16 ^ count) :
    copyHexadecimalToInteger32Bit ((hexadecimal count value).map UInt8.ofNat) = .ok value := by
  have hle : 16 ^ count ≤ 2 ^ 32 := by
    have hpow := Nat.pow_le_pow_right (show 0 < 16 by omega) hmax
    omega
  have hdigits := copyDigits_hexadecimal count value 0 (by rw [Nat.mod_eq_of_lt hvalue]; omega)
  rw [Nat.zero_mul, Nat.zero_add, Nat.mod_eq_of_lt hvalue] at hdigits
  have hsize : ssizeMax = 9223372036854775807 := rfl
  rw [copyHexadecimalToInteger32Bit, if_neg, hdigits]
  rw [List.length_map, length_hexadecimal]
  omega

/-! ### The characters of a path -/

/-- The characters of ASCII with these values. -/
def ascii (values : List Nat) : List Char := values.map Char.ofNat

/-- A character of a file entry path, and what a path has for it. -/
inductive IsWrittenAs : Char → List Char → Prop where
  | separator : IsWrittenAs (Char.ofNat separator) (ascii [libcpathSeparator])
  | escapeCharacter :
      IsWrittenAs (Char.ofNat escapeCharacter) (ascii [escapeCharacter, escapeCharacter])
  | twoDigits {c : Char} : isValueOfTwoDigits c.toNat = true →
      IsWrittenAs c (ascii (escapeSequence 0x78 2 c.toNat))
  | eightDigits {c : Char} : isUnprintable c.toNat = true →
      IsWrittenAs c (ascii (escapeSequence 0x55 8 c.toNat))
  | itself {c : Char} : c.toNat ≠ libcpathSeparator → c.toNat ≠ escapeCharacter → IsWrittenAs c [c]

/-- The characters of a path, and those of the file entry path that it stands
for. -/
inductive Unescapes : List Char → List Char → Prop where
  | nil : Unescapes [] []
  | cons {c : Char} {part s t : List Char} : IsWrittenAs c part → Unescapes s t →
      Unescapes (part ++ s) (c :: t)

/-- What a character of a name is written as. -/
def escaped (c : Char) : List Char :=
  if isEscapedByTwoDigits c.toNat then ascii (escapeSequence 0x78 2 c.toNat)
  else if isUnprintable c.toNat then ascii (escapeSequence 0x55 8 c.toNat)
  else if c.toNat = escapeCharacter then ascii [escapeCharacter, escapeCharacter]
  else [c]

/-- What a name is written as. -/
def escapeName (name : List Char) : List Char := (upToNul name).flatMap escaped

theorem Unescapes.append {s s' t t' : List Char} (h : Unescapes s t) (h' : Unescapes s' t') :
    Unescapes (s ++ s') (t ++ t') := by
  induction h with
  | nil => exact h'
  | cons hpart _ ih =>
    rw [List.append_assoc, List.cons_append]
    exact .cons hpart ih

theorem isWrittenAs_escaped {c : Char} (hc : c.toNat ≠ 0) : IsWrittenAs c (escaped c) := by
  unfold escaped
  by_cases htwo : isEscapedByTwoDigits c.toNat = true
  · rw [if_pos htwo]
    apply IsWrittenAs.twoDigits
    simp only [isEscapedByTwoDigits, decide_eq_true_eq] at htwo
    simp only [isValueOfTwoDigits, decide_eq_true_eq]
    omega
  rw [if_neg htwo]
  by_cases height : isUnprintable c.toNat = true
  · rw [if_pos height]
    exact .eightDigits height
  rw [if_neg height]
  by_cases hescape : c.toNat = escapeCharacter
  · rw [if_pos hescape]
    have hchar : c = Char.ofNat escapeCharacter := by rw [← hescape, Char.ofNat_toNat]
    rw [hchar]
    exact .escapeCharacter
  · rw [if_neg hescape]
    refine .itself ?_ hescape
    intro heq
    exact htwo (by simp [isEscapedByTwoDigits, heq])

theorem toNat_of_mem_upToNul {s : List Char} {c : Char} (h : c ∈ upToNul s) : c.toNat ≠ 0 := by
  simpa using List.mem_takeWhile_imp h

/-- What a name is written as stands for the name. -/
theorem unescapes_escapeName (name : List Char) : Unescapes (escapeName name) (upToNul name) := by
  have hall (s : List Char) (hs : ∀ c ∈ s, c.toNat ≠ 0) : Unescapes (s.flatMap escaped) s := by
    induction s with
    | nil => exact .nil
    | cons c s ih =>
      obtain ⟨hc, hrest⟩ := List.forall_mem_cons.mp hs
      rw [List.flatMap_cons]
      exact .cons (isWrittenAs_escaped hc) (ih hrest)
  exact hall (upToNul name) fun c hc => toNat_of_mem_upToNul hc

/-! ### The bytes of a path -/

theorem encodeSymbol_of_lt {c : Char} (h : c.toNat < 0x80) :
    utf8.encodeSymbol c = [UInt8.ofNat c.toNat] := by
  have hsymbol : utf8.encodeSymbol c = String.utf8EncodeChar c := rfl
  rw [hsymbol, String.utf8EncodeChar]
  exact if_pos (Nat.le_of_lt_succ h)

theorem encode_ascii {values : List Nat} (h : ∀ value ∈ values, value < 0x80) :
    utf8.encode (ascii values) = values.map UInt8.ofNat := by
  induction values with
  | nil => rfl
  | cons value values ih =>
    obtain ⟨hvalue, hrest⟩ := List.forall_mem_cons.mp h
    have htail : utf8.encode (values.map Char.ofNat) = values.map UInt8.ofNat := ih hrest
    rw [ascii, List.map_cons, Encoding.encode_cons, htail, List.map_cons,
      encodeSymbol_of_lt (by rwa [toNat_ofNat_of_lt hvalue]), toNat_ofNat_of_lt hvalue]
    rfl

theorem escapeSequence_lt {letter : Nat} (h : letter < 0x80) (count value : Nat) :
    ∀ k ∈ escapeSequence letter count value, k < 0x80 := by
  refine List.forall_mem_cons.mpr ⟨by decide, List.forall_mem_cons.mpr ⟨h, hexadecimal_lt⟩⟩

theorem length_encode_ascii {values : List Nat} (h : ∀ value ∈ values, value < 0x80) :
    (utf8.encode (ascii values)).length = values.length := by
  rw [encode_ascii h, List.length_map]

/-- The byte at the place of a character of ASCII. -/
theorem byteAt_encode (s : List Char) {c : Char} (h : c.toNat < 0x80) (t : List Char) :
    byteAt (utf8.encode (s ++ c :: t)) (utf8.encode s).length = c.toNat := by
  rw [byteAt, Encoding.encode_append, List.getD_append_right _ _ _ _ (Nat.le_refl _), Nat.sub_self,
    Encoding.encode_cons, encodeSymbol_of_lt h, List.singleton_append, List.getD_cons_zero,
    UInt8.toNat_ofNat']
  omega

/-- The digits of a value are read at their place. -/
theorem unescapeDigits_encode (s t : List Char) {count value : Nat} (hcount : 0 < count)
    (hmax : count ≤ 8) (hvalue : value < 16 ^ count) {isValue : Nat → Bool}
    (h : isValue value = true) :
    unescapeDigits (utf8.encode (s ++ ascii (hexadecimal count value) ++ t))
        (utf8.encode s).length count isValue =
      .ok (value, (utf8.encode (s ++ ascii (hexadecimal count value))).length) := by
  have hlength := length_encode_ascii (@hexadecimal_lt count value)
  rw [length_hexadecimal] at hlength
  have htake := utf8.take_drop_encode s (ascii (hexadecimal count value)) t
  rw [hlength, encode_ascii hexadecimal_lt] at htake
  rw [unescapeDigits, if_neg]
  · simp only [htake, copyHexadecimalToInteger32Bit_hexadecimal hcount hmax hvalue, bind,
      Except.bind, h, if_true]
    rw [Encoding.encode_append, List.length_append, hlength]
    rfl
  · simp only [Encoding.encode_append, List.length_append, hlength]
    omega

section Copy

variable {una : MountLibUna}

/-- The letter and the digits of an escape sequence are read. -/
theorem unescape_encode (s t : List Char) {letter count value : Nat}
    (hletter : letter = 0x78 ∧ count = 2 ∧ isValueOfTwoDigits value = true ∨
      letter = 0x55 ∧ count = 8 ∧ isUnprintable value = true) (hvalue : value < 16 ^ count) :
    unescape (utf8.encode (s ++ ascii (letter :: hexadecimal count value) ++ t))
        (utf8.encode s).length =
      .ok (value, (utf8.encode (s ++ ascii (letter :: hexadecimal count value))).length) := by
  have hlt : letter < 0x80 := by omega
  have hchar := toNat_ofNat_of_lt hlt
  have hsplit : s ++ ascii (letter :: hexadecimal count value) =
      s ++ [Char.ofNat letter] ++ ascii (hexadecimal count value) := by simp [ascii]
  have hbyte := byteAt_encode s (c := Char.ofNat letter) (by rw [hchar]; exact hlt)
    (ascii (hexadecimal count value) ++ t)
  rw [hchar] at hbyte
  have hone : (utf8.encode (s ++ [Char.ofNat letter])).length = (utf8.encode s).length + 1 := by
    rw [utf8.length_encode_concat, encodeSymbol_of_lt (by rw [hchar]; exact hlt)]
    rfl
  have hstring : s ++ ascii (letter :: hexadecimal count value) ++ t =
      s ++ Char.ofNat letter :: (ascii (hexadecimal count value) ++ t) := by simp [ascii]
  have hroom : ¬ (utf8.encode s).length + 1 >
      (utf8.encode (s ++ ascii (letter :: hexadecimal count value) ++ t)).length := by
    rw [hsplit]
    simp only [Encoding.encode_append, List.length_append] at hone ⊢
    omega
  have hescape : ¬ letter = escapeCharacter := by
    have heq : escapeCharacter = 0x5c := rfl
    omega
  rw [unescape, if_neg hroom]
  dsimp only
  rw [hstring, hbyte, if_neg hescape, ← hstring, hsplit, ← hone]
  rcases hletter with ⟨rfl, rfl, his⟩ | ⟨rfl, rfl, his⟩
  · exact unescapeDigits_encode _ t (by decide) (by decide) hvalue his
  · exact unescapeDigits_encode _ t (by decide) (by decide) hvalue his

/-- The escape character and what follows it is read, at the place of a
character that is written so. -/
theorem copyPathCharacter_escape (huna : una.IsUnicode) (s t : List Char) :
    copyPathCharacter una (utf8.encode (s ++ Char.ofNat escapeCharacter :: t))
        (utf8.encode s).length =
      unescape (utf8.encode (s ++ Char.ofNat escapeCharacter :: t))
        (utf8.encode (s ++ [Char.ofNat escapeCharacter])).length := by
  rw [copyPathCharacter]
  simp only [huna.reads s _ t, bind, Except.bind]
  rfl

/-- What is written for a character is read as the character. -/
theorem copyPathCharacter_encode (huna : una.IsUnicode) {c : Char} {part : List Char}
    (h : IsWrittenAs c part) (s t : List Char) :
    copyPathCharacter una (utf8.encode (s ++ part ++ t)) (utf8.encode s).length =
      .ok (c.toNat, (utf8.encode (s ++ part)).length) := by
  have hsequence {letter count : Nat} (hletter :
      letter = 0x78 ∧ count = 2 ∧ isValueOfTwoDigits c.toNat = true ∨
        letter = 0x55 ∧ count = 8 ∧ isUnprintable c.toNat = true) (hvalue : c.toNat < 16 ^ count) :
      copyPathCharacter una (utf8.encode (s ++ ascii (escapeSequence letter count c.toNat) ++ t))
          (utf8.encode s).length =
        .ok (c.toNat,
          (utf8.encode (s ++ ascii (escapeSequence letter count c.toNat))).length) := by
    have hread := unescape_encode (s ++ [Char.ofNat escapeCharacter]) t hletter hvalue
    have hescape := copyPathCharacter_escape huna s
      (ascii (letter :: hexadecimal count c.toNat) ++ t)
    simp only [escapeSequence, ascii, List.map_cons, List.append_assoc, List.cons_append,
      List.nil_append] at hread hescape ⊢
    rw [hescape, hread]
  cases h with
  | separator =>
    rw [copyPathCharacter, List.append_assoc]
    simp only [ascii, List.map_cons, List.map_nil, List.singleton_append, huna.reads s _ t, bind,
      Except.bind]
    rfl
  | escapeCharacter =>
    have hescape := copyPathCharacter_escape huna s (Char.ofNat escapeCharacter :: t)
    have hbyte := byteAt_encode (s ++ [Char.ofNat escapeCharacter])
      (c := Char.ofNat escapeCharacter) (by decide) t
    have hone : (utf8.encode (s ++ [Char.ofNat escapeCharacter, Char.ofNat escapeCharacter])).length
        = (utf8.encode (s ++ [Char.ofNat escapeCharacter])).length + 1 := by
      simp only [Encoding.encode_append, Encoding.encode_cons, Encoding.encode_nil,
        List.length_append, List.length_nil]
      rw [encodeSymbol_of_lt (by decide)]
      simp only [List.length_singleton]
    simp only [ascii, List.map_cons, List.map_nil, List.append_assoc, List.cons_append,
      List.nil_append] at hbyte hescape hone ⊢
    rw [hescape, unescape, if_neg]
    · dsimp only
      rw [hbyte, hone]
      rfl
    · have hmore : s ++ Char.ofNat escapeCharacter :: Char.ofNat escapeCharacter :: t =
          s ++ [Char.ofNat escapeCharacter, Char.ofNat escapeCharacter] ++ t := by simp
      rw [hmore, ← hone, utf8.encode_append _ t, List.length_append]
      omega
  | twoDigits hvalue =>
    refine hsequence (Or.inl ⟨rfl, rfl, hvalue⟩) ?_
    have hseparator : libcpathSeparator = 0x2f := rfl
    simp only [isValueOfTwoDigits, decide_eq_true_eq] at hvalue
    omega
  | eightDigits hvalue =>
    refine hsequence (Or.inr ⟨rfl, rfl, hvalue⟩) ?_
    exact lt_trans (char_toNat_lt c) (by decide)
  | itself hseparator hescape =>
    rw [copyPathCharacter, List.append_assoc, List.singleton_append]
    simp only [huna.reads s c t, bind, Except.bind]
    rw [if_neg hseparator, if_neg hescape]
    rfl

/-- A character does not take more room than what it is written as. -/
theorem length_encodeSymbol_le {c : Char} {part : List Char} (h : IsWrittenAs c part) :
    (utf8.encodeSymbol c).length ≤ (utf8.encode part).length := by
  have hfour : (utf8.encodeSymbol c).length ≤ 4 := by
    have hsymbol : utf8.encodeSymbol c = String.utf8EncodeChar c := rfl
    rw [hsymbol, String.length_utf8EncodeChar]
    exact c.utf8Size_le_four
  cases h with
  | separator => decide
  | escapeCharacter => decide
  | twoDigits =>
    rw [length_encode_ascii (escapeSequence_lt (by decide) _ _)]
    exact hfour
  | eightDigits =>
    rw [length_encode_ascii (escapeSequence_lt (by decide) _ _), escapeSequence, List.length_cons,
      List.length_cons, length_hexadecimal]
    omega
  | itself => rw [Encoding.encode_cons, Encoding.encode_nil, List.append_nil]

theorem ne_nil_of_isWrittenAs {c : Char} {part : List Char} (h : IsWrittenAs c part) :
    part ≠ [] := by
  cases h <;> exact List.cons_ne_nil _ _

/-- The loop copies the characters that the rest of the path stands for. -/
theorem copyToCharacters_encode (huna : una.IsUnicode) {s t : List Char} (h : Unescapes s t)
    (first : List Char) (copied : List UInt8)
    (hcopied : copied.length ≤ (utf8.encode first).length) {count : Nat}
    (hcount : s.length < count) :
    copyToCharacters una (utf8.encode (first ++ s)) ((utf8.encode (first ++ s)).length + 1) count
      (utf8.encode first).length copied = .ok (copied ++ utf8.encode t) := by
  induction h generalizing first copied count with
  | nil =>
    obtain ⟨count, rfl⟩ : ∃ k, count = k + 1 := ⟨count - 1, by simp at hcount; omega⟩
    rw [copyToCharacters, List.append_nil, if_neg (Nat.lt_irrefl _), Encoding.encode_nil,
      List.append_nil]
  | @cons c part s t hpart _ ih =>
    obtain ⟨count, rfl⟩ : ∃ k, count = k + 1 := ⟨count - 1, by simp at hcount; omega⟩
    have hne := ne_nil_of_isWrittenAs hpart
    have hpos := List.length_pos_iff.mpr hne
    have hlt : (utf8.encode first).length < (utf8.encode (first ++ (part ++ s))).length :=
      (utf8.length_encode_lt_iff first (part ++ s)).mpr (by simp [hne])
    have hle := length_encodeSymbol_le hpart
    have hread := copyPathCharacter_encode huna hpart first s
    have hwrite := huna.writes c ((utf8.encode (first ++ (part ++ s))).length + 1 - copied.length)
      (by simp only [Encoding.encode_append, List.length_append]; omega)
    have hless : s.length < count := by
      rw [List.length_append] at hcount
      omega
    have hrest := ih (first ++ part) (copied ++ utf8.encodeSymbol c)
      (by simp only [Encoding.encode_append, List.length_append]; omega) hless
    rw [List.append_assoc] at hread hrest
    rw [copyToCharacters, if_pos hlt]
    simp only [hread, hwrite, hrest, bind, Except.bind]
    rw [List.append_assoc, Encoding.encode_cons]

theorem Unescapes.length_encode_le {s t : List Char} (h : Unescapes s t) :
    (utf8.encode t).length ≤ (utf8.encode s).length := by
  induction h with
  | nil => exact Nat.le_refl _
  | cons hpart _ ih =>
    have hle := length_encodeSymbol_le hpart
    simp only [Encoding.encode_cons, Encoding.encode_append, List.length_append]
    omega

/-- A path is copied to the file entry path that it stands for. -/
theorem copyToFileEntryPath_encode (huna : una.IsUnicode) {s t : List Char} (h : Unescapes s t)
    (hhead : s.head? = some (Char.ofNat libcpathSeparator))
    (hlength : (utf8.encode s).length ≤ ssizeMax - 1) :
    copyToFileEntryPath una (utf8.encode s) = .ok (utf8.encode t) := by
  obtain ⟨rest, rfl⟩ : ∃ rest, s = Char.ofNat libcpathSeparator :: rest := by
    cases s with
    | nil => cases hhead
    | cons c rest => exact ⟨rest, by rw [Option.some.inj hhead]⟩
  have hunits := utf8.length_le_length_encode (Char.ofNat libcpathSeparator :: rest)
  have hbyte := byteAt_encode [] (c := Char.ofNat libcpathSeparator) (by decide) rest
  have hcopied := copyToCharacters_encode huna h [] [] (Nat.le_refl _) (Nat.lt_succ_of_le hunits)
  have hle := h.length_encode_le
  have hpos : 0 < (Char.ofNat libcpathSeparator :: rest).length := Nat.succ_pos _
  simp only [List.nil_append, Encoding.encode_nil, List.length_nil] at hbyte hcopied
  rw [copyToFileEntryPath]
  dsimp only
  rw [if_neg (by omega), if_neg (by rw [hbyte]; decide), if_neg (by omega), hcopied]
  exact if_neg (by omega)

/-- A character of a name is written as an escape sequence or as itself. -/
theorem escape_encode (huna : una.IsUnicode) (c : Char) {room : Nat}
    (hroom : 10 * (utf8.encodeSymbol c).length ≤ room) :
    escape una room c.toNat = .ok (utf8.encode (escaped c)) := by
  have hpos := utf8.length_encodeSymbol_pos c
  unfold escape escaped
  by_cases htwo : isEscapedByTwoDigits c.toNat = true
  · rw [if_pos htwo, if_pos htwo, encode_ascii (escapeSequence_lt (by decide) _ _)]
  rw [if_neg htwo, if_neg htwo]
  by_cases height : isUnprintable c.toNat = true
  · rw [if_pos height, if_pos height, encode_ascii (escapeSequence_lt (by decide) _ _)]
  rw [if_neg height, if_neg height]
  by_cases hescape : c.toNat = escapeCharacter
  · rw [if_pos hescape, if_pos hescape, if_neg (by omega), encode_ascii (by decide), hescape]
  · rw [if_neg hescape, if_neg hescape, huna.writes c room (by omega), Encoding.encode_cons,
      Encoding.encode_nil, List.append_nil]

theorem length_encode_escaped_le (c : Char) :
    (utf8.encode (escaped c)).length ≤ 10 * (utf8.encodeSymbol c).length := by
  have hpos := utf8.length_encodeSymbol_pos c
  unfold escaped
  split_ifs with htwo height hescape
  · rw [length_encode_ascii (escapeSequence_lt (by decide) _ _), escapeSequence, List.length_cons,
      List.length_cons, length_hexadecimal]
    omega
  · rw [length_encode_ascii (escapeSequence_lt (by decide) _ _), escapeSequence, List.length_cons,
      List.length_cons, length_hexadecimal]
    omega
  · rw [length_encode_ascii (by decide)]
    exact le_trans (show 2 ≤ 10 * 1 by omega) (Nat.mul_le_mul_left 10 hpos)
  · rw [Encoding.encode_cons, Encoding.encode_nil, List.append_nil]
    omega

/-- The loop writes the characters in front of the first end of string character. -/
theorem copyFromCharacters_encode (huna : una.IsUnicode) (first s rest : List Char)
    (hs : ∀ c ∈ s, c.toNat ≠ 0) (hrest : ∀ c ∈ rest.head?, c.toNat = 0) (written : List UInt8)
    (hwritten : written.length ≤ 10 * (utf8.encode first).length) {count : Nat}
    (hcount : s.length < count) :
    copyFromCharacters una (utf8.encode (first ++ s ++ rest))
        ((utf8.encode (first ++ s ++ rest)).length * 10 + 1) count (utf8.encode first).length
        written =
      .ok (written ++ utf8.encode (s.flatMap escaped)) := by
  induction s generalizing first written count with
  | nil =>
    obtain ⟨count, rfl⟩ : ∃ k, count = k + 1 := ⟨count - 1, by simp at hcount; omega⟩
    rw [copyFromCharacters, List.append_nil, List.flatMap_nil, Encoding.encode_nil, List.append_nil]
    cases rest with
    | nil => rw [List.append_nil, if_neg (Nat.lt_irrefl _)]
    | cons c rest =>
      have hc : c.toNat = 0 := hrest c rfl
      rw [if_pos ((utf8.length_encode_lt_iff first (c :: rest)).mpr (List.cons_ne_nil c rest))]
      simp only [huna.reads first c rest, bind, Except.bind, hc, if_true]
      rfl
  | cons c s ih =>
    obtain ⟨count, rfl⟩ : ∃ k, count = k + 1 := ⟨count - 1, by simp at hcount; omega⟩
    obtain ⟨hc, hs⟩ := List.forall_mem_cons.mp hs
    have hsplit : first ++ c :: s ++ rest = first ++ c :: (s ++ rest) := by simp
    have hnext : first ++ [c] ++ s ++ rest = first ++ c :: (s ++ rest) := by simp
    have hlt := (utf8.length_encode_lt_iff first (c :: (s ++ rest))).mpr (List.cons_ne_nil c _)
    have hroom : 10 * (utf8.encodeSymbol c).length ≤
        (utf8.encode (first ++ c :: (s ++ rest))).length * 10 + 1 - written.length := by
      simp only [Encoding.encode_append, Encoding.encode_cons, List.length_append]
      omega
    have hescape := escape_encode huna c hroom
    have hle := length_encode_escaped_le c
    have htail := ih (first ++ [c]) hs (written ++ utf8.encode (escaped c))
      (by rw [utf8.length_encode_concat, List.length_append]; omega)
      (Nat.lt_of_succ_lt_succ hcount)
    rw [hnext] at htail
    rw [hsplit, copyFromCharacters, if_pos hlt]
    simp only [huna.reads first c (s ++ rest), bind, Except.bind, hescape, htail]
    rw [if_neg hc, List.append_assoc, List.flatMap_cons, Encoding.encode_append]

theorem length_encode_escapeName_le (name : List Char) :
    (utf8.encode (escapeName name)).length ≤ 10 * (utf8.encode name).length := by
  unfold escapeName upToNul
  induction name with
  | nil => exact Nat.le_refl 0
  | cons c name ih =>
    have hle := length_encode_escaped_le c
    rw [List.takeWhile_cons]
    split
    · rw [List.flatMap_cons]
      simp only [Encoding.encode_append, Encoding.encode_cons, List.length_append]
      omega
    · exact Nat.zero_le _

/-- A name is copied as what it is written as. -/
theorem copyFromFileEntryPath_encode (huna : una.IsUnicode) {name : List Char} (hname : name ≠ [])
    (hlength : (utf8.encode name).length ≤ (ssizeMax - 1) / 10) :
    copyFromFileEntryPath una (utf8.encode name) = .ok (utf8.encode (escapeName name)) := by
  have hunits := utf8.length_le_length_encode name
  have hpos := List.length_pos_iff.mpr hname
  have hle := length_encode_escapeName_le name
  have hsplit : upToNul name ++ name.dropWhile (fun c => c.toNat ≠ 0) = name :=
    List.takeWhile_append_dropWhile
  have hprefix : (upToNul name).length ≤ name.length :=
    (List.takeWhile_sublist _).length_le
  have hrest : ∀ c ∈ (name.dropWhile fun c => c.toNat ≠ 0).head?, c.toNat = 0 := by
    intro c hc
    have hnot := List.head?_dropWhile_not (fun c : Char => c.toNat ≠ 0) name
    rw [Option.mem_def.mp hc] at hnot
    simpa using hnot
  have hcount : (upToNul name).length < (utf8.encode name).length + 1 := by omega
  have hcopied := copyFromCharacters_encode huna [] (upToNul name) _
    (fun c hc => toNat_of_mem_upToNul hc) hrest [] (Nat.zero_le _) hcount
  rw [List.nil_append, hsplit, Encoding.encode_nil, List.length_nil, List.nil_append] at hcopied
  rw [copyFromFileEntryPath]
  dsimp only
  rw [if_neg (by omega), if_neg (by omega), hcopied]
  exact if_neg (by simp only [escapeName] at hle; omega)

/-- Only a name that is not empty and not too long is copied. -/
theorem copyFromFileEntryPath_eq_ok (huna : una.IsUnicode) {name : List Char} {path : List UInt8}
    (h : copyFromFileEntryPath una (utf8.encode name) = .ok path) :
    path = utf8.encode (escapeName name) := by
  by_cases hname : name = []
  · subst hname
    cases h
  by_cases hlength : (utf8.encode name).length ≤ (ssizeMax - 1) / 10
  · rw [copyFromFileEntryPath_encode huna hname hlength] at h
    exact (Except.ok.inj h).symm
  · rw [copyFromFileEntryPath] at h
    dsimp only at h
    split_ifs at h with hbound hmax
    omega

end Copy

end MountPathString

end FsFat
