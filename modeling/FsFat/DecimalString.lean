import FsFat.Name

/-!
Offsets that are given to the information tool as text: the function of `info_handle.c` that
copies a string of decimal digits to a 64-bit value. It bounds the index of a digit and not the
value, so a number of twenty or twenty-one digits can wrap.
-/

namespace FsFat

namespace InfoHandle

/-- The loop over the digits, with `count` characters left in the string. -/
def copyDecimalDigits (string : Nat → Nat) (maximumStringIndex : Nat) :
    Nat → Nat → UInt64 → Except Error UInt64
  | 0, _, value => .ok value
  | count + 1, stringIndex, value =>
    let character := string stringIndex
    if character = 0 then .ok value
    else if stringIndex > maximumStringIndex then .error .valueExceedsMaximum
    else if 0x30 ≤ character ∧ character ≤ 0x39 then
      copyDecimalDigits string maximumStringIndex count (stringIndex + 1)
        (value * 10 + UInt64.ofNat (character - 0x30))
    else .error .unsupportedValue

/-- `info_handle_system_string_copy_from_64_bit_in_decimal`. The string is the memory from its
first character on: that one is read even if the string has no size. -/
def systemStringCopyFrom64BitInDecimal (string : Nat → Nat) (stringSize : Nat) :
    Except Error UInt64 :=
  if stringSize > ssizeMax then .error .valueExceedsMaximum
  else if string 0 = 0x2d then
    (copyDecimalDigits string 21 (stringSize - 1) 1 0).map (· * (-1))
  else if string 0 = 0x2b then copyDecimalDigits string 21 (stringSize - 1) 1 0
  else copyDecimalDigits string 20 stringSize 0 0

/-! ### Numbers in decimal -/

/-- The text from an index on, up to the end of the string or the first end of string character. -/
def textFrom (string : Nat → Nat) (stringIndex count : Nat) : List Nat :=
  ((List.range' stringIndex count).map string).takeWhile (· ≠ 0)

/-- Digits, and nothing else. -/
def AreDigits (text : List Nat) : Prop := ∀ character ∈ text, 0x30 ≤ character ∧ character ≤ 0x39

/-- The number of digits that follow those of a number. -/
def numberFrom (first : Nat) (digits : List Nat) : Nat :=
  digits.foldl (fun number character => number * 10 + (character - 0x30)) first

/-- A text is digits with a sign in front of them, or without one. -/
inductive IsSigned : List Nat → Bool → List Nat → Prop where
  | none {digits : List Nat} : AreDigits digits → IsSigned digits false digits
  | plus {digits : List Nat} : AreDigits digits → IsSigned (0x2b :: digits) false digits
  | minus {digits : List Nat} : AreDigits digits → IsSigned (0x2d :: digits) true digits

/-- A value is given for a text only if the text is a number, after a sign or not, that fits in 64
bits, and then the value is the number, or its negative modulo 2^64 after a minus sign. -/
def GivesNumber (text : List Nat) (result : Except Error UInt64) : Prop :=
  ∀ value, result = .ok value → ∃ negative digits,
    IsSigned text negative digits ∧ digits ≠ [] ∧ numberFrom 0 digits ≤ 2 ^ 64 - 1 ∧
      value.toNat =
        if negative then (2 ^ 64 - numberFrom 0 digits) % 2 ^ 64 else numberFrom 0 digits

theorem not_areDigits_cons {character : Nat} (h : character < 0x30) (digits : List Nat) :
    ¬ AreDigits (character :: digits) := by
  intro hdigits
  have hcharacter := hdigits character List.mem_cons_self
  omega

/-- The digits of a text and their sign are unique. -/
theorem IsSigned.unique {text : List Nat} {negative negative' : Bool} {digits digits' : List Nat}
    (h : IsSigned text negative digits) (h' : IsSigned text negative' digits') :
    negative = negative' ∧ digits = digits' := by
  cases h with
  | none hdigits =>
    cases h' with
    | none => exact ⟨rfl, rfl⟩
    | plus => exact absurd hdigits (not_areDigits_cons (by decide) _)
    | minus => exact absurd hdigits (not_areDigits_cons (by decide) _)
  | plus =>
    cases h' with
    | none hdigits => exact absurd hdigits (not_areDigits_cons (by decide) _)
    | plus => exact ⟨rfl, rfl⟩
  | minus =>
    cases h' with
    | none hdigits => exact absurd hdigits (not_areDigits_cons (by decide) _)
    | minus => exact ⟨rfl, rfl⟩

/-! ### The loop -/

theorem textFrom_succ (string : Nat → Nat) (stringIndex count : Nat) :
    textFrom string stringIndex (count + 1) =
      if string stringIndex = 0 then []
      else string stringIndex :: textFrom string (stringIndex + 1) count := by
  rw [textFrom, List.range'_succ, List.map_cons, List.takeWhile_cons]
  by_cases hzero : string stringIndex = 0
  · rw [if_pos hzero, if_neg (by simpa using hzero)]
  · rw [if_neg hzero, if_pos (by simpa using hzero)]
    rfl

/-- The loop gives a value for a text of digits that ends before the greatest index: the number
modulo 2^64. -/
theorem copyDecimalDigits_eq_ok_iff {string : Nat → Nat} {maximumStringIndex : Nat}
    {stringIndex count first : Nat} {value : UInt64}
    (hindex : stringIndex ≤ maximumStringIndex + 1) :
    copyDecimalDigits string maximumStringIndex count stringIndex (UInt64.ofNat first) =
        .ok value ↔
      AreDigits (textFrom string stringIndex count) ∧
        stringIndex + (textFrom string stringIndex count).length ≤ maximumStringIndex + 1 ∧
        value = UInt64.ofNat (numberFrom first (textFrom string stringIndex count)) := by
  induction count generalizing stringIndex first with
  | zero =>
    have htext : textFrom string stringIndex 0 = [] := rfl
    rw [copyDecimalDigits, htext, Except.ok.injEq]
    constructor
    · rintro rfl
      exact ⟨fun _ h => absurd h List.not_mem_nil, hindex, rfl⟩
    · rintro ⟨-, -, rfl⟩
      rfl
  | succ count ih =>
    rw [copyDecimalDigits, textFrom_succ]
    by_cases hzero : string stringIndex = 0
    · rw [if_pos hzero, if_pos hzero, Except.ok.injEq]
      constructor
      · rintro rfl
        exact ⟨fun _ h => absurd h List.not_mem_nil, hindex, rfl⟩
      · rintro ⟨-, -, rfl⟩
        rfl
    rw [if_neg hzero, if_neg hzero, List.length_cons]
    by_cases hlarge : stringIndex > maximumStringIndex
    · rw [if_pos hlarge]
      refine iff_of_false (fun h => by cases h) ?_
      rintro ⟨-, hlength, -⟩
      omega
    rw [if_neg hlarge]
    by_cases hdigit : 0x30 ≤ string stringIndex ∧ string stringIndex ≤ 0x39
    · have hnext : UInt64.ofNat first * 10 + UInt64.ofNat (string stringIndex - 0x30) =
          UInt64.ofNat (first * 10 + (string stringIndex - 0x30)) := by
        rw [UInt64.ofNat_add, UInt64.ofNat_mul]
        rfl
      have hnumber : numberFrom first
            (string stringIndex :: textFrom string (stringIndex + 1) count) =
          numberFrom (first * 10 + (string stringIndex - 0x30))
            (textFrom string (stringIndex + 1) count) := rfl
      rw [if_pos hdigit, hnext, ih (by omega), hnumber, AreDigits, AreDigits,
        List.forall_mem_cons, and_iff_right hdigit]
      refine and_congr_right fun _ => and_congr_left fun _ => ?_
      omega
    · rw [if_neg hdigit]
      refine iff_of_false (fun h => by cases h) ?_
      rintro ⟨hdigits, -⟩
      exact hdigit (hdigits _ List.mem_cons_self)

/-! ### Strings with a sign and without -/

theorem isSigned_minus_iff {text digits : List Nat} {negative : Bool} :
    IsSigned (0x2d :: text) negative digits ↔
      negative = true ∧ digits = text ∧ AreDigits text := by
  constructor
  · intro h
    cases h with
    | none hdigits => exact absurd hdigits (not_areDigits_cons (by decide) _)
    | minus hdigits => exact ⟨rfl, rfl, hdigits⟩
  · rintro ⟨rfl, rfl, hdigits⟩
    exact .minus hdigits

theorem isSigned_plus_iff {text digits : List Nat} {negative : Bool} :
    IsSigned (0x2b :: text) negative digits ↔
      negative = false ∧ digits = text ∧ AreDigits text := by
  constructor
  · intro h
    cases h with
    | none hdigits => exact absurd hdigits (not_areDigits_cons (by decide) _)
    | plus hdigits => exact ⟨rfl, rfl, hdigits⟩
  · rintro ⟨rfl, rfl, hdigits⟩
    exact .plus hdigits

theorem isSigned_none_iff {text digits : List Nat} {negative : Bool}
    (hminus : text.head? ≠ some 0x2d) (hplus : text.head? ≠ some 0x2b) :
    IsSigned text negative digits ↔ negative = false ∧ digits = text ∧ AreDigits text := by
  constructor
  · intro h
    cases h with
    | none hdigits => exact ⟨rfl, rfl, hdigits⟩
    | plus => exact absurd rfl hplus
    | minus => exact absurd rfl hminus
  · rintro ⟨rfl, rfl, hdigits⟩
    exact .none hdigits

theorem exists_isSigned_iff {text rest : List Nat} {sign : Bool} {p : Bool → List Nat → Prop}
    (h : ∀ {digits negative}, IsSigned text negative digits ↔
      negative = sign ∧ digits = rest ∧ AreDigits rest) :
    (∃ negative digits, IsSigned text negative digits ∧ p negative digits) ↔
      AreDigits rest ∧ p sign rest := by
  constructor
  · rintro ⟨negative, digits, hsigned, hp⟩
    obtain ⟨rfl, rfl, hdigits⟩ := h.mp hsigned
    exact ⟨hdigits, hp⟩
  · rintro ⟨hdigits, hp⟩
    exact ⟨sign, rest, h.mpr ⟨rfl, rfl, hdigits⟩, hp⟩

/-- The value of a number with a sign. -/
def signedValue (negative : Bool) (number : Nat) : UInt64 :=
  if negative then UInt64.ofNat number * (-1) else UInt64.ofNat number

/-- A value is given for a text that is a sign and at most twenty-one digits: the number modulo
2^64, also if there are no digits at all. -/
theorem systemStringCopyFrom64BitInDecimal_eq_ok_iff {string : Nat → Nat} {stringSize : Nat}
    (hsize : stringSize ≤ ssizeMax) {value : UInt64} :
    systemStringCopyFrom64BitInDecimal string stringSize = .ok value ↔
      ∃ negative digits, IsSigned (textFrom string 0 stringSize) negative digits ∧
        digits.length ≤ 21 ∧ value = signedValue negative (numberFrom 0 digits) := by
  rw [systemStringCopyFrom64BitInDecimal, if_neg (Nat.not_lt.mpr hsize)]
  -- the loop begins at the second character if the first one is a sign
  have hloop (value : UInt64) :=
    @copyDecimalDigits_eq_ok_iff string 21 1 (stringSize - 1) 0 value (by omega)
  have hplain := @copyDecimalDigits_eq_ok_iff string 20 0 stringSize 0 value (by omega)
  have hbound (rest : List Nat) : 1 + rest.length ≤ 21 + 1 ↔ rest.length ≤ 21 := by omega
  rw [Nat.zero_add] at hplain
  cases stringSize with
  | zero =>
    have htext : textFrom string 0 0 = [] := rfl
    rw [exists_isSigned_iff (isSigned_none_iff (by simp [htext]) (by simp [htext]))]
    split_ifs
    · exact hplain
    · exact hplain
    · exact hplain
  | succ count =>
    rw [Nat.add_sub_cancel] at hloop ⊢
    have hhead := textFrom_succ string 0 count
    by_cases hminus : string 0 = 0x2d
    · rw [if_neg (by omega), hminus] at hhead
      rw [if_pos hminus, hhead, exists_isSigned_iff isSigned_minus_iff, map_eq_ok_iff, ← hbound]
      constructor
      · rintro ⟨number, hnumber, rfl⟩
        obtain ⟨hdigits, hlength, rfl⟩ := (hloop number).mp hnumber
        exact ⟨hdigits, hlength, rfl⟩
      · rintro ⟨hdigits, hlength, rfl⟩
        exact ⟨_, (hloop _).mpr ⟨hdigits, hlength, rfl⟩, rfl⟩
    rw [if_neg hminus]
    by_cases hplus : string 0 = 0x2b
    · rw [if_neg (by omega), hplus] at hhead
      rw [if_pos hplus, hhead, exists_isSigned_iff isSigned_plus_iff, ← hbound]
      exact hloop value
    · have hne (sign : Nat) (hsign : string 0 ≠ sign) :
          (textFrom string 0 (count + 1)).head? ≠ some sign := by
        rw [hhead]
        split
        · exact (Option.some_ne_none sign).symm
        · rwa [List.head?_cons, ne_eq, Option.some.injEq]
      rw [if_neg hplus, exists_isSigned_iff (isSigned_none_iff (hne _ hminus) (hne _ hplus))]
      exact hplain

theorem toNat_signedValue {number : Nat} (h : number < 2 ^ 64) (negative : Bool) :
    (signedValue negative number).toNat =
      if negative then (2 ^ 64 - number) % 2 ^ 64 else number := by
  have hnumber : (UInt64.ofNat number).toNat = number := UInt64.toNat_ofNat_of_lt h
  have hone : (-1 : UInt64).toNat = 2 ^ 64 - 1 := by decide
  unfold signedValue
  cases negative with
  | true =>
    simp only [if_true, UInt64.toNat_mul, hnumber, hone]
    omega
  | false => exact hnumber

/-- The value is the number of the text, and nothing else is accepted, if and only if the string
is too long to be looked at, or is not a sign and at most twenty-one digits that are none at all or
a number from 2^64 on. -/
theorem decimal_string_gives_number_iff (string : Nat → Nat) (stringSize : Nat) :
    GivesNumber (textFrom string 0 stringSize)
        (systemStringCopyFrom64BitInDecimal string stringSize) ↔
      ssizeMax < stringSize ∨
        ∀ negative digits, IsSigned (textFrom string 0 stringSize) negative digits →
          digits.length ≤ 21 → digits ≠ [] ∧ numberFrom 0 digits < 2 ^ 64 := by
  by_cases hsize : ssizeMax < stringSize
  · refine iff_of_true ?_ (Or.inl hsize)
    intro value hvalue
    rw [systemStringCopyFrom64BitInDecimal, if_pos hsize] at hvalue
    cases hvalue
  have hcopy (value : UInt64) := @systemStringCopyFrom64BitInDecimal_eq_ok_iff string stringSize
    (Nat.le_of_not_lt hsize) value
  rw [or_iff_right hsize]
  constructor
  · intro h negative digits hsigned hlength
    obtain ⟨negative', digits', hsigned', hne, hle, -⟩ :=
      h _ ((hcopy _).mpr ⟨negative, digits, hsigned, hlength, rfl⟩)
    obtain ⟨-, rfl⟩ := hsigned.unique hsigned'
    exact ⟨hne, Nat.lt_of_le_sub_one (by omega) hle⟩
  · intro h value hvalue
    obtain ⟨negative, digits, hsigned, hlength, rfl⟩ := (hcopy value).mp hvalue
    obtain ⟨hne, hlt⟩ := h negative digits hsigned hlength
    exact ⟨negative, digits, hsigned, hne, Nat.le_sub_one_of_lt hlt, toNat_signedValue hlt negative⟩

/-- The decimal digits of 2^64. -/
def wrappingDigits : List Nat :=
  [1, 8, 4, 4, 6, 7, 4, 4, 0, 7, 3, 7, 0, 9, 5, 5, 1, 6, 1, 6].map (0x30 + ·)

/-- The string of the digits, with its end of string character. -/
def wrappingString (index : Nat) : Nat := wrappingDigits.getD index 0

/-- 2^64 is taken for 0. -/
theorem decimal_string_wraps :
    systemStringCopyFrom64BitInDecimal wrappingString 21 = .ok 0 ∧
      ¬ GivesNumber (textFrom wrappingString 0 21)
        (systemStringCopyFrom64BitInDecimal wrappingString 21) := by
  have hresult : systemStringCopyFrom64BitInDecimal wrappingString 21 = .ok 0 := by
    decide +kernel
  have htext : textFrom wrappingString 0 21 = wrappingDigits := by decide +kernel
  have hdigits : AreDigits wrappingDigits := by unfold AreDigits; decide
  refine ⟨hresult, fun h => ?_⟩
  obtain ⟨negative, digits, hsigned, -, hle, -⟩ := h 0 hresult
  rw [htext] at hsigned
  obtain ⟨-, rfl⟩ := hsigned.unique (.none hdigits)
  exact absurd hle (by decide)

end InfoHandle

end FsFat
