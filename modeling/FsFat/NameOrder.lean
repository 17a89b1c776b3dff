import FsFat.PathNames

/-!
The order of names. A name is stored in UTF-16, least significant byte first, or
in bytes, and is compared with a string in UTF-8 or in UTF-16. Each of the two
may have an end of string character, and for each encoding it is cut off in its
own way. What is compared are the characters.
-/

namespace FsFat

/-! ### Stored names -/

/-- A character in a UTF-16 stream, least significant byte first. -/
def utf16Stream : Encoding Char UInt8 where
  encodeSymbol c := nameBytes (utf16EncodeChar c)
  ne_nil c := by
    intro hempty
    have hlength := congrArg List.length hempty
    rw [length_nameBytes] at hlength
    have hpos := utf16.length_encodeSymbol_pos c
    have hsymbol : utf16.encodeSymbol c = utf16EncodeChar c := rfl
    rw [hsymbol] at hpos
    simp only [List.length_nil] at hlength
    omega

/-- libuna reads the characters of names in both encodings. -/
structure LibUna.ReadsNames (una : LibUna) : Prop where
  utf16Stream : utf16Stream.IsReadBy Char.toNat una.copyFromUtf16Stream
  byteStream : ∀ (name : List UInt8) (index : Nat) (h : index < name.length),
    una.copyFromByteStream name index = .ok ((byteCharacter name[index]).toNat, index + 1)

/-- The characters of a stored name, with those that end it. -/
inductive IsStoredName : Bool → List UInt8 → List Char → Prop where
  | utf16 (characters : List Char) :
      IsStoredName true (utf16Stream.encode characters) characters
  | bytes (name : List UInt8) : IsStoredName false name (name.map byteCharacter)

/-- The order of a string and a name: they are equal, the string comes first in lexicographic
order, or neither. -/
structure IsOrderOf (order : Ordering) (string name : List Nat) : Prop where
  equal : order = .eq ↔ string = name
  less : order = .lt ↔ string < name
  greater : order = .gt ↔ string ≠ name ∧ ¬ string < name

namespace Name

/-- What is compared: the characters without one that ends them, folded if they are. -/
def comparedCharacters (una : LibUna) (useCaseFolding : Bool) (characters : List Char) :
    List Nat :=
  (charactersWithoutTerminator characters).map fun c => caseFolding una useCaseFolding c.toNat

/-! ### The characters without the one that ends them -/

theorem encode_utf16Stream (s : List Char) : utf16Stream.encode s = nameBytes (utf16.encode s) := by
  induction s with
  | nil => rfl
  | cons c s ih =>
    rw [Encoding.encode_cons, Encoding.encode_cons, nameBytes_append, ih]
    rfl

/-- A unit of the name is cut off when both of its bytes are zero, that is when it is zero. -/
theorem withoutTerminator_nameBytes (units : CodeUnits UInt16) (hvalue : units.value = UInt16.toNat)
    (name : List UInt16) :
    withoutTerminator true (nameBytes name) = nameBytes (stringWithoutTerminator units name) := by
  rcases List.eq_nil_or_concat name with rfl | ⟨name, unit, rfl⟩
  · rfl
  · have hunit : nameBytes [unit] = unitBytes unit := List.append_nil _
    have hlength : (nameBytes name ++ unitBytes unit).length = (nameBytes name).length + 2 := by
      rw [List.length_append]
      rfl
    rw [List.concat_eq_append, nameBytes_append, hunit, withoutTerminator, stringWithoutTerminator,
      if_pos rfl, hlength, hvalue, List.getLast?_concat, Option.map_some, List.dropLast_concat]
    have hlow : (nameBytes name ++ unitBytes unit).getD ((nameBytes name).length + 2 - 2) 0 =
        unit.toUInt8 := by
      simp [unitBytes]
    have hhigh : (nameBytes name ++ unitBytes unit).getD ((nameBytes name).length + 2 - 1) 0 =
        (unit >>> 8).toUInt8 := by
      simp [unitBytes]
    rw [hlow, hhigh]
    by_cases hzero : unit = 0
    · have hvalue : some unit.toNat = some 0 := congrArg (fun unit => some unit.toNat) hzero
      have hbytes : unit.toUInt8 = 0 ∧ (unit >>> 8).toUInt8 = 0 := by
        subst hzero
        exact ⟨rfl, rfl⟩
      rw [if_pos ⟨by omega, hbytes⟩, if_pos hvalue]
      exact List.take_left' (by omega)
    · rw [if_neg fun hboth => hzero (unitBytes_eq_zero hboth.2), if_neg, nameBytes_append, hunit]
      intro hsome
      exact hzero (UInt16.toNat_inj.mp (Option.some.inj hsome))

theorem toNat_byteCharacter_eq_zero_iff (byte : UInt8) :
    (byteCharacter byte).toNat = 0 ↔ byte = 0 := by
  rw [byteCharacter]
  split
  · next hlt =>
    rw [toNat_ofNat_of_lt hlt]
    exact UInt8.toNat_inj (b := 0)
  · next hnot =>
    apply iff_of_false (by decide)
    rintro rfl
    exact hnot (by decide)

theorem charactersWithoutTerminator_bytes (name : List UInt8) :
    charactersWithoutTerminator (name.map byteCharacter) =
      (withoutTerminator false name).map byteCharacter := by
  rcases List.eq_nil_or_concat name with rfl | ⟨name, byte, rfl⟩
  · rfl
  · have hlast : (name ++ [byte]).getD ((name ++ [byte]).length - 1) 0 = byte := by simp
    rw [List.concat_eq_append, withoutTerminator, if_neg Bool.false_ne_true, hlast,
      charactersWithoutTerminator, List.map_append, List.map_singleton, List.getLast?_concat,
      Option.map_some, List.dropLast_concat]
    have hvalue := toNat_byteCharacter_eq_zero_iff byte
    by_cases hzero : byte = 0
    · rw [if_pos (congrArg some (hvalue.mpr hzero)), if_pos ⟨by simp, hzero⟩]
      simp
    · rw [if_neg fun hsome => hzero (hvalue.mp (Option.some.inj hsome)),
        if_neg fun hboth => hzero hboth.2, List.map_append, List.map_singleton]

/-! ### Reading a stored name -/

theorem readsFrom_encode {υ : Type} {e : Encoding Char υ}
    {copy : List υ → Nat → Except Error (Nat × Nat)} (h : e.IsReadBy Char.toNat copy)
    (s t : List Char) :
    ReadsFrom (copy (e.encode (s ++ t))) (e.encode (s ++ t)).length (e.encode s).length t := by
  induction t generalizing s with
  | nil =>
    rw [List.append_nil]
    exact .nil (Nat.le_refl _)
  | cons c t ih =>
    have hrest := ih (s ++ [c])
    rw [List.append_assoc, List.singleton_append] at hrest
    exact .cons ((e.length_encode_lt_iff s (c :: t)).mpr (List.cons_ne_nil c t)) (h s c t) hrest

theorem readsFrom_bytes {una : LibUna} (h : una.ReadsNames) (name : List UInt8) (index : Nat) :
    ReadsFrom (una.copyFromByteStream name) name.length index
      ((name.drop index).map byteCharacter) := by
  induction hrest : name.drop index generalizing index with
  | nil => exact .nil (List.drop_eq_nil_iff.mp hrest)
  | cons byte rest ih =>
    have hlt : index < name.length := by
      by_contra hnot
      rw [List.drop_eq_nil_of_le (Nat.le_of_not_lt hnot)] at hrest
      cases hrest
    rw [List.drop_eq_getElem_cons hlt] at hrest
    injection hrest with hbyte hrest
    subst hbyte
    exact .cons hlt (h.byteStream name index hlt) (ih (index + 1) hrest)

/-- The characters of a stored name are read, without the one that ends them. -/
theorem reads_of_isStoredName {una : LibUna} (hstrings : una.ReadsUnicode) (h : una.ReadsNames)
    {isUnicode : Bool} {name : List UInt8} {characters : List Char}
    (hname : IsStoredName isUnicode name characters) :
    Reads una isUnicode name (charactersWithoutTerminator characters) := by
  cases hname with
  | utf16 =>
    have hunits : withoutTerminator true (utf16Stream.encode characters) =
        utf16Stream.encode (charactersWithoutTerminator characters) := by
      rw [encode_utf16Stream, encode_utf16Stream, withoutTerminator_nameBytes una.utf16Units rfl,
        stringWithoutTerminator_encode (isStringEncoding_utf16 hstrings.utf16)]
    rw [Reads, hunits]
    exact readsFrom_encode h.utf16Stream [] _
  | bytes =>
    rw [Reads, charactersWithoutTerminator_bytes]
    exact readsFrom_bytes h _ 0

/-! ### The order -/

theorem isOrderOf_of_compares {order : Ordering} {string name : List Nat}
    (h : order.Compares string name) : IsOrderOf order string name := by
  refine ⟨h.eq_eq, h.eq_lt, h.eq_gt.trans ?_⟩
  rw [← not_le, le_iff_eq_or_lt, not_or]

/-- The comparison of characters with a stored name. -/
theorem compareWithCharacters_order {una : LibUna} (hstrings : una.ReadsUnicode)
    (h : una.ReadsNames) {isUnicode : Bool} {name : List UInt8} {nameSize : Nat}
    {characters : List Char} (hname : IsStoredName isUnicode (name.take nameSize) characters)
    (hpos : 0 < nameSize) (hmax : nameSize ≤ ssizeMax) (s : List Char) (useCaseFolding : Bool) :
    ∃ order, compareWithCharacters una (some name) nameSize isUnicode s useCaseFolding =
        .ok order ∧
      IsOrderOf order (comparedCharacters una useCaseFolding s)
        (comparedCharacters una useCaseFolding characters) := by
  obtain ⟨order, horder, hcompares⟩ := compareFrom_of_readsFrom
    (reads_of_isStoredName hstrings h hname) (caseFolding una useCaseFolding)
    (charactersWithoutTerminator s)
  refine ⟨order, ?_, isOrderOf_of_compares hcompares⟩
  rw [compareWithCharacters, if_neg (Nat.not_lt.mpr hmax), if_neg hpos.ne']
  exact horder

/-- The comparisons of a stored name with a string in UTF-8 and in UTF-16 are both the order of
their characters. -/
theorem comparisons_are_lexicographic {una : LibUna} (hstrings : una.ReadsUnicode)
    (hnames : una.ReadsNames) {isUnicode : Bool} {name : List UInt8} {nameSize : Nat}
    {characters : List Char} (hname : IsStoredName isUnicode (name.take nameSize) characters)
    (hpos : 0 < nameSize) (hmax : nameSize ≤ ssizeMax) {s : List Char}
    (hlength : (utf8.encode s).length ≤ ssizeMax) (useCaseFolding : Bool) :
    ∃ order,
      compareWithUtf8String una (some name) nameSize isUnicode (utf8.encode s) useCaseFolding =
        .ok order ∧
      compareWithUtf16String una (some name) nameSize isUnicode (utf16.encode s) useCaseFolding =
        .ok order ∧
      IsOrderOf order (comparedCharacters una useCaseFolding s)
        (comparedCharacters una useCaseFolding characters) := by
  obtain ⟨order, horder, hcompares⟩ := compareWithCharacters_order hstrings hnames hname hpos hmax
    s useCaseFolding
  refine ⟨order, ?_, ?_, hcompares⟩
  · rw [← horder]
    exact compareWithString_encode (isStringEncoding_utf8 hstrings.utf8) una _ _ _ s hlength _
  · rw [← horder]
    exact compareWithString_encode (isStringEncoding_utf16 hstrings.utf16) una _ _ _ s
      (le_trans (length_encode_utf16_le s) hlength) _

end Name

/-! ### A name with the character that ends it -/

theorem utf16Units_nameBytes (name : List UInt16) : utf16Units (nameBytes name) = name := by
  induction name with
  | nil => rfl
  | cons unit name ih =>
    have hunit : UInt16.ofNat (unit.toUInt8.toNat + 0x100 * (unit >>> 8).toUInt8.toNat) = unit := by
      apply UInt16.toNat_inj.mp
      have hlt := unit.toNat_lt
      simp only [UInt16.toNat_ofNat', UInt16.toNat_toUInt8, UInt16.toNat_shiftRight,
        UInt16.toNat_ofNat, Nat.shiftRight_eq_div_pow, Nat.reduceMod, Nat.reducePow]
      omega
    have hbytes : nameBytes (unit :: name) = unitBytes unit ++ nameBytes name :=
      List.flatMap_cons
    rw [hbytes, unitBytes, List.cons_append, List.cons_append, List.nil_append, utf16Units, hunit,
      ih]

theorem readsNames_wellFormedLibUna : wellFormedLibUna.ReadsNames := by
  refine ⟨fun s c t => ?_, fun name index h => ?_⟩
  · have hread := copyUtf16Character_encode [] c t
    have hlength (s : List Char) :
        (utf16Stream.encode s).length = 2 * (utf16.encode s).length := by
      rw [Name.encode_utf16Stream, length_nameBytes]
    have hbehind : utf16Stream.encodeSymbol c ++ utf16Stream.encode t =
        nameBytes (utf16.encode ([] ++ c :: t)) := by
      rw [← Encoding.encode_cons, Name.encode_utf16Stream, List.nil_append]
    simp only [wellFormedLibUna, utf16Stream.drop_encode, hbehind, utf16Units_nameBytes]
    rw [Encoding.encode_nil, List.length_nil, List.nil_append [c]] at hread
    have hend : 2 * (utf16.encode s).length + 2 * (utf16.encode [c]).length =
        2 * (utf16.encode (s ++ [c])).length := by
      rw [utf16.encode_append, List.length_append, Nat.mul_add]
    rw [hread, hlength, hlength, ← hend]
    rfl
  · have hbyte : byteCharacter name[index] =
        Char.ofNat (if name[index].toNat < 0x80 then name[index].toNat else 0xfffd) := rfl
    simp only [wellFormedLibUna, List.drop_eq_getElem_cons h, hbyte]
    split
    · next hlt => rw [toNat_ofNat_of_lt hlt]
    · rfl

/-- The name "B", with the character that ends it. -/
def endedName : List UInt8 := [0x42, 0, 0, 0]

/-- The string "a" comes before the name "B", folded. -/
theorem comparisons_are_lexicographic_endedName :
    0 < endedName.length ∧ endedName.length ≤ ssizeMax ∧
    ∃ order,
      Name.compareWithUtf8String wellFormedLibUna (some endedName) endedName.length true
        (utf8.encode [Char.ofNat 0x61]) true = .ok order ∧
      Name.compareWithUtf16String wellFormedLibUna (some endedName) endedName.length true
        (utf16.encode [Char.ofNat 0x61]) true = .ok order ∧
      IsOrderOf order
        (Name.comparedCharacters wellFormedLibUna true [Char.ofNat 0x61])
        (Name.comparedCharacters wellFormedLibUna true [Char.ofNat 0x42, Char.ofNat 0]) := by
  have hname : IsStoredName true (endedName.take endedName.length)
      [Char.ofNat 0x42, Char.ofNat 0] := .utf16 [Char.ofNat 0x42, Char.ofNat 0]
  exact ⟨by decide, by decide,
    Name.comparisons_are_lexicographic readsUnicode_wellFormedLibUna readsNames_wellFormedLibUna
      hname (by decide) (by decide) (by decide) true⟩

end FsFat
