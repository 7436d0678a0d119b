import Fetchpp.Http.ContentType

/-!
# Registered media types

A media type may be registered under names of up to 127 letters, digits and
`!#$&-^_.+` each.  The pattern of `content_type::parse` has a class for such
names that lacks the last two of these characters, so that it accepts a
registered media type exactly if neither of them is used.
-/

namespace Fetchpp.Http

open Lib

/-- A character of a registered name. -/
def isRestrictedNameChar (c : Char) : Bool :=
  c.isAlphanum || "!#$&-^_.+".toList.contains c

/-- A registered media type and the parameters it is written with. -/
structure MediaType where
  type : Run isRestrictedNameChar 127
  subtype : Run isRestrictedNameChar 127
  charset : Option (Run isValueChar 127) := none
  boundary : Option (Run isValueChar 70) := none

/-- `; name=value`, if there is a value. -/
def writeParameter {max : Nat} (name : String) :
    Option (Run isValueChar max) → List Char
  | none => []
  | some value => "; ".toList ++ name.toList ++ "=".toList ++ value.text

def runText {accepts : Char → Bool} {max : Nat} :
    Option (Run accepts max) → List Char
  | none => []
  | some run => run.text

namespace MediaType

def name (media : MediaType) : List Char :=
  media.type.text ++ '/' :: media.subtype.text

def text (media : MediaType) : String :=
  String.ofList (media.name ++ writeParameter "charset" media.charset ++
    writeParameter "boundary" media.boundary)

def contentType (media : MediaType) : ContentType where
  type := String.ofList media.name
  charset := String.ofList (runText media.charset)
  boundary := String.ofList (runText media.boundary)

end MediaType

theorem isNameChar_of_restricted {c : Char}
    (restricted : isRestrictedNameChar c = true) :
    isNameChar c = true ↔ c ≠ '.' ∧ c ≠ '+' := by
  constructor
  · intro accepted
    constructor
    · rintro rfl
      revert accepted
      decide
    · rintro rfl
      revert accepted
      decide
  · rintro ⟨notDot, notPlus⟩
    have marks : "!#$&-^_.+".toList.all
        (fun d => isNameChar d || d = '.' || d = '+') = true := by
      decide
    rcases Bool.or_eq_true_iff.mp restricted with alphanum | mark
    · simp [isNameChar, isWord, alphanum]
    · have listed := List.all_eq_true.mp marks c (List.contains_iff_mem.mp mark)
      simpa [notDot, notPlus] using listed

theorem isNameChar_of_mem_name {c : Char} {type subtype : Run isNameChar 127}
    (member : c ∈ type.text ++ '/' :: subtype.text) :
    isNameChar c = true ∨ c = '/' := by
  rcases List.mem_append.mp member with inType | behind
  · exact .inl (type.accepted c inType)
  · rcases List.mem_cons.mp behind with slash | inSubtype
    · exact .inr slash
    · exact .inl (subtype.accepted c inSubtype)

def Run.narrow {accepts accepts' : Char → Bool} {max : Nat}
    (run : Run accepts max) (accepted : ∀ c ∈ run.text, accepts' c = true) :
    Run accepts' max :=
  ⟨run.text, accepted, run.pos, run.le⟩

def Run.parameter {max : Nat} (value : Run isValueChar max) (name : String) :
    Parameter (name ++ "=") max where
  gap := [' ']
  written := (name ++ "=").toList
  value := value
  gap_spaces := by simp [isSpace]
  written_name := List.forall₂_same.mpr (fun _ _ => by simp [sameLetter])

theorem optionalText_parameter {max : Nat} (name : String)
    (value : Option (Run isValueChar max)) :
    optionalText (value.map (fun run => run.parameter name)) =
      writeParameter name value := by
  cases value with
  | none => rfl
  | some run =>
      simp [optionalText, Parameter.text, Run.parameter, writeParameter]

theorem optionalValue_parameter {max : Nat} (name : String)
    (value : Option (Run isValueChar max)) :
    optionalValue (value.map (fun run => run.parameter name)) =
      runText value := by
  cases value with
  | none => rfl
  | some run => rfl

/-- A registered media type with its parameters is read as exactly these
components, unless a name has one of the two characters. -/
theorem MediaType.parse_text_iff (media : MediaType) :
    ContentType.parse media.text = .ok media.contentType ↔
      ∀ c ∈ media.type.text ++ media.subtype.text, c ≠ '.' ∧ c ≠ '+' := by
  constructor
  · intro parsed c member
    obtain ⟨reading, _, same⟩ := parse_eq_ok_iff.mp parsed
    have names : reading.mediaText = media.name :=
      String.ofList_injective (congrArg ContentType.type same)
    have inName : c ∈ reading.mediaText := by
      rw [names]
      rcases List.mem_append.mp member with inType | inSubtype
      · exact List.mem_append_left _ inType
      · exact List.mem_append_right _ (List.mem_cons_of_mem _ inSubtype)
    have restricted : isRestrictedNameChar c = true := by
      rcases List.mem_append.mp member with inType | inSubtype
      · exact media.type.accepted c inType
      · exact media.subtype.accepted c inSubtype
    rcases isNameChar_of_mem_name inName with accepted | rfl
    · exact (isNameChar_of_restricted restricted).mp accepted
    · decide
  · intro plain
    have inType : ∀ c ∈ media.type.text, isNameChar c = true := by
      intro c member
      exact (isNameChar_of_restricted (media.type.accepted c member)).mpr
        (plain c (List.mem_append_left _ member))
    have inSubtype : ∀ c ∈ media.subtype.text, isNameChar c = true := by
      intro c member
      exact (isNameChar_of_restricted (media.subtype.accepted c member)).mpr
        (plain c (List.mem_append_right _ member))
    refine parse_eq_ok_iff.mpr ⟨
      { type := media.type.narrow inType
        subtype := media.subtype.narrow inSubtype
        charset := media.charset.map (fun run => run.parameter "charset")
        boundary := media.boundary.map (fun run => run.parameter "boundary")
        trailing := []
        trailing_spaces := by simp }, ?_, ?_⟩
    · have charset := optionalText_parameter "charset" media.charset
      have boundary := optionalText_parameter "boundary" media.boundary
      simp only [Reading.text, MediaType.text, String.toList_ofList,
        List.append_nil, List.append_assoc]
      exact congrArg₂ (· ++ ·) rfl (congrArg₂ (· ++ ·) charset boundary)
    · have charset := optionalValue_parameter "charset" media.charset
      have boundary := optionalValue_parameter "boundary" media.boundary
      exact congrArg₂ (ContentType.mk _) (congrArg String.ofList charset)
        (congrArg String.ofList boundary)

def svgMediaType : MediaType where
  type := ⟨"image".toList, List.all_eq_true.mp rfl, by decide, by decide⟩
  subtype := ⟨"svg+xml".toList, List.all_eq_true.mp rfl, by decide, by decide⟩

theorem svgMediaType_not_accepted :
    svgMediaType.text = "image/svg+xml" ∧
      ContentType.parse svgMediaType.text =
        .error (.domainError "malformed content type") := by
  constructor
  · decide +kernel
  · decide +kernel

end Fetchpp.Http
