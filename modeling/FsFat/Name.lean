import FsFat.DirectoryEntry
import FsFat.Lib.Strings

/-!
The comparison of names with strings: `libfsfat_name.c`. There is a function for
UTF-8 and one for UTF-16 strings. They differ in the code units and in the
function of libuna that reads a character, and both are arguments here.

A string that libuna reads as it was encoded is compared character by character.
-/

namespace FsFat

/-- `SSIZE_MAX` of a 64-bit system. -/
def ssizeMax : Nat := 2 ^ 63 - 1

/-- The functions of libuna and of the C library that names and paths are read
with. A function that reads a character returns the character and the index
behind it. -/
structure LibUna where
  copyFromUtf8 : List UInt8 → Nat → Except Error (Nat × Nat)
  copyFromUtf16 : List UInt16 → Nat → Except Error (Nat × Nat)
  copyFromUtf16Stream : List UInt8 → Nat → Except Error (Nat × Nat)
  copyFromByteStream : List UInt8 → Nat → Except Error (Nat × Nat)
  towupper : Nat → Nat

/-- What the functions for UTF-8 and those for UTF-16 strings differ in. -/
structure CodeUnits (υ : Type) where
  value : υ → Nat
  copy : List υ → Nat → Except Error (Nat × Nat)

def LibUna.utf8Units (una : LibUna) : CodeUnits UInt8 := ⟨UInt8.toNat, una.copyFromUtf8⟩

def LibUna.utf16Units (una : LibUna) : CodeUnits UInt16 := ⟨UInt16.toNat, una.copyFromUtf16⟩

namespace Name

/-- The name without an end of string character. -/
def withoutTerminator (isUnicode : Bool) (name : List UInt8) : List UInt8 :=
  if isUnicode then
    if 2 ≤ name.length ∧ name.getD (name.length - 2) 0 = 0 ∧ name.getD (name.length - 1) 0 = 0 then
      name.take (name.length - 2)
    else name
  else if 1 ≤ name.length ∧ name.getD (name.length - 1) 0 = 0 then name.take (name.length - 1)
  else name

/-- The function that reads the characters of a name. -/
def copyCharacter (una : LibUna) (isUnicode : Bool) :
    List UInt8 → Nat → Except Error (Nat × Nat) :=
  if isUnicode then una.copyFromUtf16Stream else una.copyFromByteStream

/-- How the characters are compared. -/
def caseFolding (una : LibUna) (useCaseFolding : Bool) (character : Nat) : Nat :=
  if useCaseFolding then una.towupper character else character

/-- The loop over the characters of the name and of the string. -/
def compareCharacters (copyName copyString : Nat → Except Error (Nat × Nat)) (fold : Nat → Nat)
    (nameSize stringLength : Nat) : Nat → Nat → Nat → Except Error Ordering
  | 0, _, _ => .error .iterationLimit
  | count + 1, nameIndex, stringIndex =>
    if nameIndex < nameSize ∧ stringIndex < stringLength then do
      let (nameCharacter, nameIndex) ← copyName nameIndex
      let (stringCharacter, stringIndex) ← copyString stringIndex
      if fold stringCharacter < fold nameCharacter then pure .lt
      else if fold stringCharacter > fold nameCharacter then pure .gt
      else
        compareCharacters copyName copyString fold nameSize stringLength count nameIndex stringIndex
    else if stringIndex < stringLength then .ok .gt
    else if nameIndex < nameSize then .ok .lt
    else .ok .eq

variable {υ : Type}

/-- The string without an end of string character. -/
def stringWithoutTerminator (units : CodeUnits υ) (string : List υ) : List υ :=
  if string.getLast?.map units.value = some 0 then string.dropLast else string

/-- `libfsfat_name_compare_with_utf8_string` and
`libfsfat_name_compare_with_utf16_string`. -/
def compareWithString (una : LibUna) (units : CodeUnits υ) (name : Option (List UInt8))
    (nameSize : Nat) (isUnicode : Bool) (string : List υ) (useCaseFolding : Bool) :
    Except Error Ordering :=
  match name with
  | none => .error .missingName
  | some name =>
    if nameSize > ssizeMax then .error .valueExceedsMaximum
    else if nameSize = 0 then .error .missingName
    else if string.length > ssizeMax then .error .valueExceedsMaximum
    else
      let name := withoutTerminator isUnicode (name.take nameSize)
      let string := stringWithoutTerminator units string
      compareCharacters (copyCharacter una isUnicode name) (units.copy string)
        (caseFolding una useCaseFolding) name.length string.length (string.length + 1) 0 0

def compareWithUtf8String (una : LibUna) : Option (List UInt8) → Nat → Bool → List UInt8 → Bool →
    Except Error Ordering := compareWithString una una.utf8Units

def compareWithUtf16String (una : LibUna) : Option (List UInt8) → Nat → Bool → List UInt16 →
    Bool → Except Error Ordering := compareWithString una una.utf16Units

end Name

namespace DirectoryEntry

variable {υ : Type}

/-- `libfsfat_directory_entry_compare_with_utf8_string` and its sibling for
UTF-16: the comparison with an entry whose name was determined. -/
def compareWithString (una : LibUna) (units : CodeUnits υ) (string : List υ)
    (entry : DirectoryEntry) : Except Error Ordering :=
  Name.compareWithString una units entry.name entry.nameSize entry.isUnicode string true

end DirectoryEntry

/-! ### Comparing with characters -/

/-- The characters of a string are read as they were encoded. A character of
ASCII is one code unit with the same value, and no other has such a unit. -/
structure IsStringEncoding {υ : Type} (e : Encoding Char υ) (units : CodeUnits υ) : Prop where
  isReadBy : e.IsReadBy Char.toNat units.copy
  ascii : ∀ c : Char, c.toNat < 0x80 → ∃ unit, e.encodeSymbol c = [unit] ∧ units.value unit = c.toNat
  other : ∀ c : Char, 0x80 ≤ c.toNat → ∀ unit ∈ e.encodeSymbol c, 0x80 ≤ units.value unit

namespace IsStringEncoding

variable {υ : Type} {e : Encoding Char υ} {units : CodeUnits υ}

/-- A code unit of ASCII is the character. -/
theorem of_value_lt (h : IsStringEncoding e units) {c : Char} {unit : υ}
    (hunit : unit ∈ e.encodeSymbol c) (hlt : units.value unit < 0x80) :
    e.encodeSymbol c = [unit] ∧ units.value unit = c.toNat := by
  by_cases hc : c.toNat < 0x80
  · obtain ⟨unit', hsymbol, hvalue⟩ := h.ascii c hc
    rw [hsymbol, List.mem_singleton] at hunit
    rw [hsymbol, hunit]
    exact ⟨rfl, hvalue⟩
  · have hge := h.other c (by omega) unit hunit
    omega

theorem length_encodeSymbol (h : IsStringEncoding e units) {c : Char} (hc : c.toNat < 0x80) :
    (e.encodeSymbol c).length = 1 := by
  obtain ⟨unit, hsymbol, _⟩ := h.ascii c hc
  rw [hsymbol]
  rfl

/-- The first code unit of ASCII is that of the first character. -/
theorem head_value_iff (h : IsStringEncoding e units) {k : Nat} (hk : k < 0x80) (c : Char) :
    (e.encodeSymbol c).head?.map units.value = some k ↔ c.toNat = k := by
  constructor
  · intro hhead
    obtain ⟨unit, hunit, hvalue⟩ := Option.map_eq_some_iff.mp hhead
    rw [← (h.of_value_lt (List.mem_of_head? hunit) (by omega)).2, hvalue]
  · intro hc
    obtain ⟨unit, hsymbol, hvalue⟩ := h.ascii c (by omega)
    rw [hsymbol, List.head?_cons, Option.map_some, hvalue, hc]

/-- The last code unit of ASCII is that of the last character. -/
theorem getLast_value_iff (h : IsStringEncoding e units) {k : Nat} (hk : k < 0x80) (c : Char) :
    (e.encodeSymbol c).getLast?.map units.value = some k ↔ c.toNat = k := by
  constructor
  · intro hlast
    obtain ⟨unit, hunit, hvalue⟩ := Option.map_eq_some_iff.mp hlast
    rw [← (h.of_value_lt (List.mem_of_getLast? hunit) (by omega)).2, hvalue]
  · intro hc
    obtain ⟨unit, hsymbol, hvalue⟩ := h.ascii c (by omega)
    rw [hsymbol, List.getLast?_singleton, Option.map_some, hvalue, hc]

end IsStringEncoding

namespace Name

variable {υ : Type} {e : Encoding Char υ} {units : CodeUnits υ}

/-- The string without an end of string character. -/
def charactersWithoutTerminator (s : List Char) : List Char :=
  if s.getLast?.map Char.toNat = some 0 then s.dropLast else s

/-- The comparison of a name with the characters of a string. -/
def compareFrom (copyName : Nat → Except Error (Nat × Nat)) (fold : Nat → Nat) (nameSize : Nat) :
    Nat → List Char → Except Error Ordering
  | nameIndex, [] => if nameIndex < nameSize then .ok .lt else .ok .eq
  | nameIndex, c :: s =>
    if nameIndex < nameSize then do
      let (nameCharacter, nameIndex) ← copyName nameIndex
      if fold c.toNat < fold nameCharacter then pure .lt
      else if fold c.toNat > fold nameCharacter then pure .gt
      else compareFrom copyName fold nameSize nameIndex s
    else .ok .gt

/-- What the comparison with a string comes to, whatever its encoding is. -/
def compareWithCharacters (una : LibUna) (name : Option (List UInt8)) (nameSize : Nat)
    (isUnicode : Bool) (s : List Char) (useCaseFolding : Bool) : Except Error Ordering :=
  match name with
  | none => .error .missingName
  | some name =>
    if nameSize > ssizeMax then .error .valueExceedsMaximum
    else if nameSize = 0 then .error .missingName
    else
      let name := withoutTerminator isUnicode (name.take nameSize)
      compareFrom (copyCharacter una isUnicode name) (caseFolding una useCaseFolding) name.length 0
        (charactersWithoutTerminator s)

/-- The loop is a recursion over the characters that are left. -/
theorem compareCharacters_encode (h : IsStringEncoding e units)
    (copyName : Nat → Except Error (Nat × Nat)) (fold : Nat → Nat) (nameSize nameIndex : Nat)
    (s t : List Char) {count : Nat} (hcount : t.length < count) :
    compareCharacters copyName (units.copy (e.encode (s ++ t))) fold nameSize
        (e.encode (s ++ t)).length count nameIndex (e.encode s).length =
      compareFrom copyName fold nameSize nameIndex t := by
  induction t generalizing s nameIndex count with
  | nil =>
    obtain ⟨count, rfl⟩ : ∃ k, count = k + 1 := ⟨count - 1, by simp at hcount; omega⟩
    simp [compareCharacters, compareFrom]
  | cons c t ih =>
    obtain ⟨count, rfl⟩ : ∃ k, count = k + 1 := ⟨count - 1, by simp at hcount; omega⟩
    have hlt : (e.encode s).length < (e.encode (s ++ c :: t)).length :=
      (e.length_encode_lt_iff s (c :: t)).mpr (List.cons_ne_nil c t)
    rw [compareCharacters, compareFrom]
    by_cases hname : nameIndex < nameSize
    · rw [if_pos ⟨hname, hlt⟩, if_pos hname]
      cases copyName nameIndex with
      | error error => rfl
      | ok result =>
        obtain ⟨nameCharacter, nameIndex'⟩ := result
        have hrest := ih nameIndex' (s ++ [c]) (Nat.lt_of_succ_lt_succ hcount)
        rw [List.append_assoc, List.singleton_append] at hrest
        simp only [bind, Except.bind, h.isReadBy s c t, hrest]
    · rw [if_neg fun hboth => hname hboth.1, if_pos hlt, if_neg hname]

theorem stringWithoutTerminator_encode (h : IsStringEncoding e units) (s : List Char) :
    stringWithoutTerminator units (e.encode s) = e.encode (charactersWithoutTerminator s) := by
  unfold stringWithoutTerminator charactersWithoutTerminator
  rcases List.eq_nil_or_concat s with rfl | ⟨s, c, rfl⟩
  · rfl
  · have hlast : (e.encode (s ++ [c])).getLast? = (e.encodeSymbol c).getLast? := by
      simp [List.getLast?_append_of_ne_nil _ (e.ne_nil c)]
    have hnul := h.getLast_value_iff (show 0 < 0x80 by decide) c
    rw [List.concat_eq_append, hlast, List.getLast?_concat, Option.map_some]
    by_cases hc : c.toNat = 0
    · obtain ⟨unit, hsymbol, _⟩ := h.ascii c (by omega)
      rw [if_pos (hnul.mpr hc), if_pos (congrArg some hc), List.dropLast_concat]
      simp [hsymbol]
    · rw [if_neg fun hvalue => hc (hnul.mp hvalue), if_neg fun hsome => hc (Option.some.inj hsome)]

/-- The comparison with a string is the comparison with its characters. -/
theorem compareWithString_encode (h : IsStringEncoding e units) (una : LibUna)
    (name : Option (List UInt8)) (nameSize : Nat) (isUnicode : Bool) (s : List Char)
    (hlength : (e.encode s).length ≤ ssizeMax) (useCaseFolding : Bool) :
    compareWithString una units name nameSize isUnicode (e.encode s) useCaseFolding =
      compareWithCharacters una name nameSize isUnicode s useCaseFolding := by
  cases name with
  | none => rfl
  | some name =>
    simp only [compareWithString, compareWithCharacters, stringWithoutTerminator_encode h,
      if_neg (Nat.not_lt.mpr hlength)]
    have hle := e.length_le_length_encode (charactersWithoutTerminator s)
    have hloop (copyName : Nat → Except Error (Nat × Nat)) (fold : Nat → Nat) (nameSize : Nat) :=
      compareCharacters_encode h copyName fold nameSize 0 [] (charactersWithoutTerminator s)
        (Nat.lt_succ_of_le hle)
    simp only [List.nil_append, Encoding.encode_nil, List.length_nil] at hloop
    simp only [hloop]

end Name

end FsFat
