import FsFat.DirectoryEntry
import Mathlib.Data.List.DropRight

/-!
The padding of short names. A short name is stored in eight characters and three
more, with spaces behind it that are not part of it. `getName` takes what is in
front of the first space, which is the name only where no space is inside it.
-/

namespace FsFat

open DirectoryEntry

section Padding

variable {α : Type} {p : α → Bool}

theorem rdropWhile_cons_of_neg {a : α} (h : ¬ p a) (l : List α) :
    (a :: l).rdropWhile p = a :: l.rdropWhile p := by
  unfold List.rdropWhile
  rw [List.reverse_cons, List.dropWhile_append]
  split_ifs with hnil
  · rw [List.isEmpty_iff.mp hnil, List.dropWhile_cons_of_neg h]
    rfl
  · rw [List.reverse_append]
    rfl

/-- What is in front of the first element that `p` holds of is not longer than what is left
when the last elements that it holds of are dropped. -/
theorem takeWhile_prefix_rdropWhile (l : List α) :
    l.takeWhile (fun a => !p a) <+: l.rdropWhile p := by
  induction l with
  | nil => exact List.prefix_rfl
  | cons a l ih =>
    by_cases hp : p a
    · rw [List.takeWhile_cons_of_neg (by simp [hp])]
      exact List.nil_prefix
    · rw [List.takeWhile_cons_of_pos (by simp [hp]), rdropWhile_cons_of_neg hp]
      exact (List.prefix_cons_inj a).mpr ih

/-- Both are the same where `p` holds of everything behind an element that it holds of. -/
theorem takeWhile_eq_rdropWhile_iff (l : List α) :
    l.takeWhile (fun a => !p a) = l.rdropWhile p ↔ l.Pairwise fun a b => p a → p b := by
  induction l with
  | nil => simp
  | cons a l ih =>
    rw [List.pairwise_cons]
    by_cases hp : p a
    · rw [List.takeWhile_cons_of_neg (by simp [hp]), eq_comm, List.rdropWhile_eq_nil_iff,
        List.forall_mem_cons]
      constructor
      · rintro ⟨-, hall⟩
        exact ⟨fun b hb _ => hall b hb, List.pairwise_of_forall_mem_list fun _ _ b hb _ => hall b hb⟩
      · rintro ⟨hall, -⟩
        exact ⟨hp, fun b hb => hall b hb hp⟩
    · rw [List.takeWhile_cons_of_pos (by simp [hp]), rdropWhile_cons_of_neg hp,
        List.cons_inj_right, ih]
      exact ⟨fun h => ⟨fun _ _ ha => absurd ha hp, h⟩, And.right⟩

/-- Where `p` holds of nothing that is left, it holds of everything behind. -/
theorem pairwise_of_forall_rdropWhile {l : List α} (h : ∀ a ∈ l.rdropWhile p, ¬ p a) :
    l.Pairwise fun a b => p a → p b := by
  rw [← List.rdropWhile_append_rtakeWhile (p := p) (l := l), List.pairwise_append]
  refine ⟨?_, ?_, fun a ha b _ hp => absurd hp (h a ha)⟩
  · exact List.pairwise_of_forall_mem_list fun a ha _ _ hp => absurd hp (h a ha)
  · exact List.pairwise_of_forall_mem_list fun _ _ b hb _ => List.mem_rtakeWhile_imp hb

/-- Two cuts one after another are the cut of the whole where `p` holds of everything behind. -/
theorem takeWhile_append_of_pairwise {k l : List α}
    (h : (k ++ l).Pairwise fun a b => p a → p b) :
    (k ++ l).takeWhile (fun a => !p a) =
      k.takeWhile (fun a => !p a) ++ l.takeWhile (fun a => !p a) := by
  by_cases hk : ∀ a ∈ k, ¬ p a
  · have hall : ∀ a ∈ k, (fun a => !p a) a = true := fun a ha => by simp [hk a ha]
    rw [List.takeWhile_append_of_pos hall, List.takeWhile_eq_self_iff.mpr hall]
  · obtain ⟨a, ha, hp⟩ : ∃ a ∈ k, p a := by simpa using hk
    have hl : l.takeWhile (fun a => !p a) = [] := by
      cases l with
      | nil => rfl
      | cons b l =>
        have hb : p b := (List.pairwise_append.mp h).2.2 a ha b List.mem_cons_self hp
        exact List.takeWhile_cons_of_neg (by simp [hb])
    rw [hl, List.append_nil, List.takeWhile_append, if_neg]
    intro hlength
    have hself := List.IsPrefix.eq_of_length (List.takeWhile_prefix _) hlength
    have hnot := List.takeWhile_eq_self_iff.mp hself a ha
    simp [hp] at hnot

/-- Two lists that begin two others make up what those make up only if they are the same. -/
theorem append_eq_append_iff_of_isPrefix {a b c d : List α} (hab : a <+: b) (hcd : c <+: d) :
    a ++ c = b ++ d ↔ a = b ∧ c = d := by
  constructor
  · intro h
    have hlength := congrArg List.length h
    rw [List.length_append, List.length_append] at hlength
    have ha := hab.length_le
    have hc := hcd.length_le
    exact ⟨hab.eq_of_length (by omega), hcd.eq_of_length (by omega)⟩
  · rintro ⟨rfl, rfl⟩
    rfl

end Padding

/-- The name without the spaces that are behind it. -/
def withoutPadding (characters : List UInt8) : List UInt8 :=
  characters.rdropWhile (· = 0x20)

/-- An extension with a dot before it, or nothing. -/
def withDot (extension : List UInt8) : List UInt8 :=
  if extension.isEmpty then [] else 0x2e :: extension

/-- The name of a short name entry when only the padding is dropped: the name and the extension,
or the eleven characters of a volume label. -/
def unpaddedNameOf (nameData : List UInt8) (isVolumeLabel : Bool) : List UInt8 :=
  if isVolumeLabel then withoutPadding (field nameData 0 8 ++ field nameData 8 3) ++ [0]
  else
    withoutPadding (field nameData 0 8) ++ withDot (withoutPadding (field nameData 8 3)) ++ [0]

/-- No other character is behind a space. -/
def NoInnerSpace (characters : List UInt8) : Prop :=
  characters.Pairwise fun a b => a = 0x20 → b = 0x20

/-- The spaces of a name and of an extension, or of a volume label, are all padding. -/
def HasOnlyPadding (nameData : List UInt8) (isVolumeLabel : Bool) : Prop :=
  if isVolumeLabel then NoInnerSpace (field nameData 0 8 ++ field nameData 8 3)
  else NoInnerSpace (field nameData 0 8) ∧ NoInnerSpace (field nameData 8 3)

theorem upToSpace_eq (characters : List UInt8) :
    upToSpace characters = characters.takeWhile fun a => !decide (a = 0x20) := by
  simp [upToSpace]

theorem noInnerSpace_iff (characters : List UInt8) :
    NoInnerSpace characters ↔
      characters.Pairwise fun a b => decide (a = 0x20) = true → decide (b = 0x20) = true := by
  simp [NoInnerSpace]

theorem upToSpace_eq_withoutPadding_iff (characters : List UInt8) :
    upToSpace characters = withoutPadding characters ↔ NoInnerSpace characters := by
  rw [upToSpace_eq, noInnerSpace_iff]
  exact takeWhile_eq_rdropWhile_iff characters

theorem upToSpace_prefix_withoutPadding (characters : List UInt8) :
    upToSpace characters <+: withoutPadding characters := by
  rw [upToSpace_eq]
  exact takeWhile_prefix_rdropWhile characters

theorem ne_space_of_mem_upToSpace {characters : List UInt8} {a : UInt8}
    (h : a ∈ upToSpace characters) : a ≠ 0x20 := by
  simpa using List.mem_takeWhile_imp h

/-- The two parts of a volume label are the label without its padding if and only if it has no
inner space. -/
theorem label_eq_withoutPadding_iff (name extension : List UInt8) :
    upToSpace name ++ upToSpace extension = withoutPadding (name ++ extension) ↔
      NoInnerSpace (name ++ extension) := by
  constructor
  · intro h
    rw [noInnerSpace_iff]
    apply pairwise_of_forall_rdropWhile
    intro a ha
    have hmem : a ∈ upToSpace name ++ upToSpace extension := h ▸ ha
    have hne : a ≠ 0x20 :=
      (List.mem_append.mp hmem).elim ne_space_of_mem_upToSpace ne_space_of_mem_upToSpace
    simp [hne]
  · intro h
    rw [← (upToSpace_eq_withoutPadding_iff _).mpr h, upToSpace_eq, upToSpace_eq, upToSpace_eq,
      takeWhile_append_of_pairwise ((noInnerSpace_iff _).mp h)]

theorem withDot_mono {a b : List UInt8} (h : a <+: b) : withDot a <+: withDot b := by
  cases a with
  | nil => exact List.nil_prefix
  | cons x a =>
    obtain ⟨rest, rfl⟩ := h
    exact (List.prefix_cons_inj 0x2e).mpr ⟨rest, rfl⟩

theorem withDot_inj {a b : List UInt8} (h : withDot a = withDot b) : a = b := by
  cases a <;> cases b <;> simp_all [withDot]

theorem shortNameOf_eq_unpaddedNameOf_iff (nameData : List UInt8) (isVolumeLabel : Bool) :
    shortNameOf nameData isVolumeLabel = unpaddedNameOf nameData isVolumeLabel ↔
      HasOnlyPadding nameData isVolumeLabel := by
  cases isVolumeLabel with
  | true =>
    have hname : shortNameOf nameData true =
        upToSpace (field nameData 0 8) ++ upToSpace (field nameData 8 3) ++ [0] := by
      simp [shortNameOf]
    have hunpadded : unpaddedNameOf nameData true =
        withoutPadding (field nameData 0 8 ++ field nameData 8 3) ++ [0] := rfl
    rw [hname, hunpadded, List.append_cancel_right_eq]
    exact label_eq_withoutPadding_iff _ _
  | false =>
    have hname : shortNameOf nameData false =
        upToSpace (field nameData 0 8) ++ withDot (upToSpace (field nameData 8 3)) ++ [0] := by
      cases h : upToSpace (field nameData 8 3) <;> simp [shortNameOf, withDot, h]
    have hunpadded : unpaddedNameOf nameData false =
        withoutPadding (field nameData 0 8) ++
          withDot (withoutPadding (field nameData 8 3)) ++ [0] := rfl
    rw [hname, hunpadded, List.append_cancel_right_eq,
      append_eq_append_iff_of_isPrefix (upToSpace_prefix_withoutPadding _)
        (withDot_mono (upToSpace_prefix_withoutPadding _))]
    apply and_congr (upToSpace_eq_withoutPadding_iff _)
    rw [← upToSpace_eq_withoutPadding_iff]
    exact ⟨withDot_inj, congrArg withDot⟩

namespace DirectoryEntry

def isVolumeLabel (entry : DirectoryEntry) : Bool :=
  entry.fileAttributeFlags &&& fileAttributeFlagVolumeLabel ≠ 0

/-- The entry with its short name. -/
def withShortName (entry : DirectoryEntry) (name : List UInt8) : DirectoryEntry :=
  { entry with name := some name, nameSize := name.length, isUnicode := false }

/-- A short name keeps all but its padding if and only if it has no inner space. -/
theorem getName_drops_padding_iff {entry : DirectoryEntry} (htype : entry.entryType = .shortName)
    (hname : entry.name = none) (hentries : entry.nameEntries = none) :
    entry.getName =
        .ok (entry.withShortName (unpaddedNameOf entry.nameData entry.isVolumeLabel)) ↔
      HasOnlyPadding entry.nameData entry.isVolumeLabel := by
  have hget : entry.getName =
      .ok (entry.withShortName (shortNameOf entry.nameData entry.isVolumeLabel)) := by
    cases entry
    cases htype
    cases hname
    cases hentries
    rfl
  rw [hget, ← shortNameOf_eq_unpaddedNameOf_iff]
  constructor
  · intro h
    exact Option.some.inj (congrArg DirectoryEntry.name (Except.ok.inj h))
  · intro h
    rw [h]

/-- A volume label with a space inside it, "A B". -/
def spacedLabelEntry : DirectoryEntry :=
  { create with
    entryType := .shortName
    nameData := nameDataOf [0x41, 0x20, 0x42, 0x20, 0x20, 0x20, 0x20, 0x20, 0x20, 0x20, 0x20]
    fileAttributeFlags := fileAttributeFlagVolumeLabel }

theorem getName_drops_padding_iff_spacedLabel :
    spacedLabelEntry.getName = .ok (spacedLabelEntry.withShortName
        (unpaddedNameOf spacedLabelEntry.nameData spacedLabelEntry.isVolumeLabel)) ↔
      HasOnlyPadding spacedLabelEntry.nameData spacedLabelEntry.isVolumeLabel :=
  getName_drops_padding_iff rfl rfl rfl

/-- What is behind the space is lost. -/
theorem getName_spacedLabel :
    spacedLabelEntry.getName = .ok (spacedLabelEntry.withShortName [0x41, 0]) ∧
      unpaddedNameOf spacedLabelEntry.nameData spacedLabelEntry.isVolumeLabel =
        [0x41, 0x20, 0x42, 0] :=
  ⟨rfl, by decide +kernel⟩

end DirectoryEntry

end FsFat
