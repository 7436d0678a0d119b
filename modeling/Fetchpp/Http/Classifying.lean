import Fetchpp.Http.MediaTypes

/-!
# Kinds of contents

`is_json`, `is_text` and `is_content` of `message.hpp`, and the equality of
content types.  The equality ignores the case of a media type and the three
functions do not; nor do they catch what `content_type::parse` throws.
-/

namespace Fetchpp.Http

open Lib

/-- `boost::iequals` in the classic locale. -/
def iequals (left right : String) : Bool :=
  left.toLower = right.toLower

/-- `operator==` of content types -/
def ContentType.equals (lhs rhs : ContentType) : Bool :=
  iequals lhs.type rhs.type && iequals lhs.charset rhs.charset &&
    lhs.boundary == rhs.boundary

namespace Message

def isContentType (type : String) (message : Message) :
    Except Exception Bool :=
  match message.contentType with
  | .error exception => .error exception
  | .ok none => .ok false
  | .ok (some ct) => .ok (ct.type = type)

def isJson (message : Message) : Except Exception Bool :=
  message.isContentType "application/json"

def isText (message : Message) : Except Exception Bool :=
  message.isContentType "text/plain"

/-- `is_content`: `||` and `&&` ask no more than they need. -/
def isContent (message : Message) : Except Exception Bool := do
  if ← message.isContentType "application/octet-stream" then
    return true
  if ← message.isJson then
    return false
  return !(← message.isText)

/-- The content type of a message is this one. -/
def isOf (type : String) : Option ContentType → Bool
  | none => false
  | some ct => ct.type = type

variable {message other : Message} {found : Option ContentType}

theorem isContentType_eq (read : message.contentType = .ok found)
    (type : String) : message.isContentType type = .ok (isOf type found) := by
  rw [isContentType, read]
  cases found <;> rfl

theorem isOf_unique {type type' : String} (different : type ≠ type')
    (is : isOf type found = true) : isOf type' found = false := by
  cases found with
  | none => rfl
  | some ct =>
      have same : ct.type = type := by simpa [isOf] using is
      simp [isOf, same, different]

theorem isContent_eq (read : message.contentType = .ok found) :
    message.isContent = .ok (!isOf "application/json" found &&
      !isOf "text/plain" found) := by
  simp only [isContent, isJson, isText, isContentType_eq read]
  cases octets : isOf "application/octet-stream" found with
  | true =>
      rw [isOf_unique (by decide) octets, isOf_unique (by decide) octets]
      rfl
  | false => cases isOf "application/json" found <;> rfl

/-- The three answer the same of two messages. -/
structure SameAnswers (message other : Message) : Prop where
  json : other.isJson = message.isJson
  text : other.isText = message.isText
  content : other.isContent = message.isContent

theorem SameAnswers.of_found {found' : Option ContentType}
    (read : message.contentType = .ok found)
    (read' : other.contentType = .ok found')
    (json : isOf "application/json" found' = isOf "application/json" found)
    (text : isOf "text/plain" found' = isOf "text/plain" found) :
    SameAnswers message other where
  json := by
    rw [isJson, isJson, isContentType_eq read, isContentType_eq read', json]
  text := by
    rw [isText, isText, isContentType_eq read, isContentType_eq read', text]
  content := by rw [isContent_eq read, isContent_eq read', json, text]

end Message

def lowered (s : List Char) : List Char :=
  s.map Char.toLower

theorem iequals_iff {left right : String} :
    iequals left right = true ↔ lowered left.toList = lowered right.toList := by
  have letters : ∀ text : String, text.toLower.toList = lowered text.toList :=
    fun _ => String.toList_map
  rw [iequals, decide_eq_true_eq, ← String.toList_inj, letters, letters]

/-- Letters of the media type, which ends before the first `;`, change case. -/
def Recased (value value' : String) : Prop :=
  ∃ media media' rest : List Char, value.toList = media ++ rest ∧
    value'.toList = media' ++ rest ∧ ';' ∉ media ∧
    lowered media' = lowered media

theorem Recased.lowered_eq {value value' : String}
    (recased : Recased value value') :
    lowered value'.toList = lowered value.toList := by
  obtain ⟨media, media', rest, same, same', _, letters⟩ := recased
  unfold lowered at letters ⊢
  rw [same, same', List.map_append, List.map_append, letters]

theorem forall₂_sameLetter {s t : List Char} :
    List.Forall₂ (fun c d => sameLetter c d = true) s t ↔
      lowered s = lowered t := by
  simp only [sameLetter, decide_eq_true_eq, lowered, ← List.forall₂_eq_eq_eq,
    List.forall₂_map_left_iff, List.forall₂_map_right_iff]

theorem isAlpha_eq (c : Char) :
    c.isAlpha = (decide (65 ≤ c.val ∧ c.val ≤ 90) ||
      (decide (97 ≤ c.val) && decide (c.val ≤ 122))) :=
  rfl

theorem val_toLower (c : Char) :
    c.toLower.val = if 65 ≤ c.val ∧ c.val ≤ 90 then c.val + 32 else c.val := by
  by_cases upper : c.val ≥ 'A'.val ∧ c.val ≤ 'Z'.val
  · exact (congrArg Char.val (dif_pos upper)).trans (if_pos upper).symm
  · exact (congrArg Char.val (dif_neg upper)).trans (if_neg upper).symm

theorem isWord_congr {c d : Char} (same : c.toLower = d.toLower) :
    isWord c = isWord d := by
  have values := congrArg Char.val same
  rw [val_toLower, val_toLower] at values
  simp only [isWord, Char.isAlphanum, isAlpha_eq, Char.isDigit, Char.ext_iff]
  grind

theorem eq_of_toLower {c d : Char} (mark : d.isAlpha = false)
    (same : c.toLower = d.toLower) : c = d := by
  have values := congrArg Char.val same
  rw [val_toLower, val_toLower] at values
  simp only [isAlpha_eq, Bool.or_eq_false_iff, Bool.and_eq_false_iff,
    decide_eq_false_iff_not] at mark
  apply Char.ext
  grind

theorem contains_congr {marks : List Char}
    (unlettered : marks.all (fun m => m.isAlpha = false) = true) {c d : Char}
    (same : c.toLower = d.toLower) : marks.contains c = marks.contains d := by
  have mark : ∀ m ∈ marks, m.isAlpha = false :=
    fun m member => of_decide_eq_true (List.all_eq_true.mp unlettered m member)
  rw [Bool.eq_iff_iff, List.contains_iff_mem, List.contains_iff_mem]
  constructor
  · intro member
    rwa [eq_of_toLower (mark c member) same.symm]
  · intro member
    rwa [eq_of_toLower (mark d member) same]

theorem isNameChar_congr {c d : Char} (same : c.toLower = d.toLower) :
    isNameChar c = isNameChar d := by
  unfold isNameChar
  rw [isWord_congr same, contains_congr (by decide) same]

theorem isValueChar_congr {c d : Char} (same : c.toLower = d.toLower) :
    isValueChar c = isValueChar d := by
  unfold isValueChar
  rw [isWord_congr same, contains_congr (by decide) same]

theorem isSpace_congr {c d : Char} (same : c.toLower = d.toLower) :
    isSpace c = isSpace d :=
  contains_congr (by decide) same

theorem lowered_append {s first second : List Char}
    (same : lowered s = lowered (first ++ second)) :
    ∃ first' second', s = first' ++ second' ∧
      lowered first' = lowered first ∧ lowered second' = lowered second :=
  List.map_eq_append_iff.mp (same.trans List.map_append)

theorem lowered_mark {s rest : List Char} {m : Char} (mark : m.isAlpha = false)
    (same : lowered s = lowered (m :: rest)) :
    ∃ rest', s = m :: rest' ∧ lowered rest' = lowered rest := by
  obtain ⟨c, rest', rfl, letter, later⟩ := List.map_eq_cons_iff.mp same
  exact ⟨rest', by rw [eq_of_toLower mark letter], later⟩

theorem accepted_of_lowered {accepts : Char → Bool}
    (closed : ∀ {c d : Char}, c.toLower = d.toLower → accepts c = accepts d)
    {s t : List Char} (same : lowered s = lowered t)
    (all : ∀ c ∈ t, accepts c = true) : ∀ c ∈ s, accepts c = true := by
  intro c member
  have lower : c.toLower ∈ lowered t := by
    rw [← same]
    exact List.mem_map_of_mem member
  obtain ⟨d, member', same'⟩ := List.mem_map.mp lower
  rw [← closed same']
  exact all d member'

theorem Run.recase {accepts : Char → Bool} {max : Nat}
    (closed : ∀ {c d : Char}, c.toLower = d.toLower → accepts c = accepts d)
    (run : Run accepts max) {s : List Char}
    (same : lowered s = lowered run.text) :
    ∃ run' : Run accepts max, run'.text = s := by
  have length : s.length = run.text.length := by
    simpa [lowered] using congrArg List.length same
  exact ⟨⟨s, accepted_of_lowered closed same run.accepted,
    length ▸ run.pos, length ▸ run.le⟩, rfl⟩

theorem optionalText_recase {name : String} {max : Nat}
    (written : Option (Parameter name max)) {s : List Char}
    (same : lowered s = lowered (optionalText written)) :
    ∃ written' : Option (Parameter name max), optionalText written' = s := by
  cases written with
  | none => exact ⟨none, (List.map_eq_nil_iff.mp same).symm⟩
  | some parameter =>
      obtain ⟨_, rfl, behindMark⟩ := lowered_mark (by decide) same
      obtain ⟨gap, _, rfl, gapSame, behindGap⟩ := lowered_append behindMark
      obtain ⟨spelled, value, rfl, spelledSame, valueSame⟩ :=
        lowered_append behindGap
      obtain ⟨run, rfl⟩ := parameter.value.recase isValueChar_congr valueSame
      refine ⟨some ⟨gap, spelled, run,
        accepted_of_lowered isSpace_congr gapSame parameter.gap_spaces, ?_⟩,
        rfl⟩
      exact forall₂_sameLetter.mpr
        ((forall₂_sameLetter.mp parameter.written_name).trans spelledSame.symm)

/-- A text is read alike whatever the case of its letters. -/
theorem Reading.recase (reading : Reading) {s : List Char}
    (same : lowered s = lowered reading.text) :
    ∃ reading' : Reading, reading'.text = s ∧
      lowered reading'.mediaText = lowered reading.mediaText := by
  obtain ⟨media, _, rfl, mediaSame, behindMedia⟩ := lowered_append same
  obtain ⟨_, _, rfl, charsetSame, behindCharset⟩ := lowered_append behindMedia
  obtain ⟨_, trailing, rfl, boundarySame, trailingSame⟩ :=
    lowered_append behindCharset
  obtain ⟨charset, rfl⟩ := optionalText_recase reading.charset charsetSame
  obtain ⟨boundary, rfl⟩ := optionalText_recase reading.boundary boundarySame
  obtain ⟨_, _, rfl, typeSame, behindType⟩ := lowered_append mediaSame
  obtain ⟨_, rfl, subtypeSame⟩ := lowered_mark (by decide) behindType
  obtain ⟨type, rfl⟩ := reading.type.recase isNameChar_congr typeSame
  obtain ⟨subtype, rfl⟩ := reading.subtype.recase isNameChar_congr subtypeSame
  exact ⟨⟨type, subtype, charset, boundary, trailing,
    accepted_of_lowered isSpace_congr trailingSame reading.trailing_spaces⟩,
    rfl, mediaSame⟩

theorem Reading.rename (reading : Reading) {name : List Char}
    (same : lowered name = lowered reading.mediaText) :
    ∃ reading' : Reading, reading'.mediaText = name ∧
      Recased (String.ofList reading.text) (String.ofList reading'.text) := by
  have whole : lowered (name ++ (optionalText reading.charset ++
      (optionalText reading.boundary ++ reading.trailing))) =
      lowered reading.text := by
    simp only [Reading.text, lowered, List.map_append] at same ⊢
    rw [same]
  obtain ⟨reading', text, media⟩ := reading.recase whole
  have length : reading'.mediaText.length = name.length := by
    simpa [lowered] using congrArg List.length (media.trans same.symm)
  have spelled : reading'.mediaText = name := (List.append_inj text length).1
  refine ⟨reading', spelled, reading.mediaText, name, _, String.toList_ofList,
    String.toList_ofList.trans text, ?_, same⟩
  intro member
  rcases isNameChar_of_mem_name member with accepted | mark
  · revert accepted
    decide
  · revert mark
    decide

namespace Message

variable {message : Message}

theorem contentType_none :
    message.contentType = .ok none ↔ message.find "Content-Type" = none := by
  unfold contentType
  have some_ne : ∀ result : Except Exception ContentType,
      result.map some ≠ .ok none := by
    intro result
    cases result <;> simp [Except.map]
  cases message.find "Content-Type" with
  | none => simp
  | some value => simpa using some_ne (ContentType.parse value)

theorem contentType_some {ct : ContentType} :
    message.contentType = .ok (some ct) ↔
      ∃ reading : Reading,
        message.find "Content-Type" = some (String.ofList reading.text) ∧
        reading.contentType = ct := by
  unfold contentType
  cases message.find "Content-Type" with
  | none => simp
  | some value =>
      have parsed : (ContentType.parse value).map some = .ok (some ct) ↔
          ContentType.parse value = .ok ct := by
        cases ContentType.parse value <;> simp [Except.map]
      simp only [parsed, parse_eq_ok_iff, Option.some.injEq]
      refine exists_congr fun reading => and_congr_left fun _ => ?_
      rw [← String.toList_inj, String.toList_ofList, eq_comm]

/-- The three functions return, exactly one of them answers with true, and
the case of the media type does not matter. -/
structure Classified (message : Message) : Prop where
  returns : ∃ json text content, message.isJson = .ok json ∧
    message.isText = .ok text ∧ message.isContent = .ok content ∧
    [json, text, content].count true = 1
  recased : ∀ (other : Message) (value value' : String),
    message.find "Content-Type" = some value →
    other.find "Content-Type" = some value' →
    Recased value value' → SameAnswers message other
  agrees : ∀ (other : Message) (ct ct' : ContentType),
    message.contentType = .ok (some ct) →
    other.contentType = .ok (some ct') →
    ct.equals ct' = true → SameAnswers message other

theorem returns_of_found {found : Option ContentType}
    (read : message.contentType = .ok found) :
    ∃ json text content, message.isJson = .ok json ∧
      message.isText = .ok text ∧ message.isContent = .ok content ∧
      [json, text, content].count true = 1 := by
  refine ⟨_, _, _, isContentType_eq read _, isContentType_eq read _,
    isContent_eq read, ?_⟩
  cases json : isOf "application/json" found with
  | true =>
      rw [isOf_unique (by decide) json]
      rfl
  | false => cases isOf "text/plain" found <;> rfl

theorem isOf_false {name : String} {ct ct' : ContentType}
    (same : iequals ct.type ct'.type = true)
    (different : iequals ct.type name = false) :
    isOf name (some ct') = false := by
  rw [isOf, decide_eq_false_iff_not]
  rintro rfl
  rw [same] at different
  cases different

/-- Where neither name is meant, no spelling of the media type is taken for
it. -/
theorem SameAnswers.of_iequals {other : Message} {ct ct' : ContentType}
    (read : message.contentType = .ok (some ct))
    (read' : other.contentType = .ok (some ct'))
    (json : iequals ct.type "application/json" = false)
    (text : iequals ct.type "text/plain" = false)
    (same : iequals ct.type ct'.type = true) : SameAnswers message other := by
  have itself : iequals ct.type ct.type = true := by simp [iequals]
  refine .of_found read read' ?_ ?_
  · rw [isOf_false same json, isOf_false itself json]
  · rw [isOf_false same text, isOf_false itself text]

/-- A name that is compared exactly is not the message's in any case. -/
theorem Classified.not_named (classified : message.Classified)
    {ct : ContentType} (read : message.contentType = .ok (some ct))
    {name shouted : String} (letters : iequals shouted name = true)
    (different : shouted ≠ name)
    (asked : ∀ {other : Message}, SameAnswers message other →
      other.isContentType name = message.isContentType name) :
    iequals ct.type name = false := by
  cases named : iequals ct.type name with
  | false => rfl
  | true =>
      obtain ⟨reading, found, rfl⟩ := contentType_some.mp read
      have spelled : ∀ spelling : String, iequals spelling name = true →
          message.isContentType name =
            .ok (isOf name (some ⟨spelling, "", ""⟩)) := by
        intro spelling same
        have lower : lowered spelling.toList = lowered reading.mediaText := by
          have media := iequals_iff.mp named
          rw [Reading.contentType, String.toList_ofList] at media
          exact (iequals_iff.mp same).trans media.symm
        obtain ⟨reading', media, recased⟩ := reading.rename lower
        let other : Message :=
          Message.set "Content-Type" (String.ofList reading'.text) {}
        have found' : other.find "Content-Type" = some _ :=
          Message.find_set _ _ _
        rw [← asked (classified.recased other _ _ found found' recased),
          isContentType_eq (contentType_some.mpr ⟨reading', found', rfl⟩)]
        simp [isOf, Reading.contentType, media]
      have quiet := spelled name (by simp [iequals])
      rw [spelled shouted letters] at quiet
      simp [isOf, different] at quiet

/-- A message is classified exactly if its content type can be read and is
neither of the two names in any case, or if it has none. -/
theorem classified_iff (message : Message) :
    message.Classified ↔
      message.contentType = .ok none ∨
      ∃ ct, message.contentType = .ok (some ct) ∧
        iequals ct.type "application/json" = false ∧
        iequals ct.type "text/plain" = false := by
  constructor
  · intro classified
    cases read : message.contentType with
    | error exception =>
        obtain ⟨json, _, _, answered, _⟩ := classified.returns
        rw [isJson, isContentType, read] at answered
        cases answered
    | ok found =>
        cases found with
        | none => exact .inl rfl
        | some ct =>
            have json : iequals "APPLICATION/JSON" "application/json" = true :=
              iequals_iff.mpr (by decide)
            have text : iequals "TEXT/PLAIN" "text/plain" = true :=
              iequals_iff.mpr (by decide)
            refine .inr ⟨ct, rfl, ?_, ?_⟩
            · exact classified.not_named read json (by decide)
                (fun same => same.json)
            · exact classified.not_named read text (by decide)
                (fun same => same.text)
  · rintro (absent | ⟨ct, read, json, text⟩)
    · refine ⟨returns_of_found absent, ?_, ?_⟩
      · intro other value value' found
        rw [contentType_none.mp absent] at found
        cases found
      · intro other ct ct' read
        rw [absent] at read
        cases read
    · refine ⟨returns_of_found read, ?_, ?_⟩
      · intro other value value' found found' recased
        obtain ⟨reading, named, rfl⟩ := contentType_some.mp read
        obtain rfl := Option.some.inj (named.symm.trans found)
        have same := recased.lowered_eq
        rw [String.toList_ofList] at same
        obtain ⟨reading', text', media⟩ := reading.recase same
        have read' : other.contentType = .ok (some reading'.contentType) :=
          contentType_some.mpr ⟨reading', by
            rw [found', text', String.ofList_toList], rfl⟩
        refine .of_iequals read read' json text (iequals_iff.mpr ?_)
        simp only [Reading.contentType, String.toList_ofList]
        exact media.symm
      · intro other ct' ct'' read' read'' equal
        obtain rfl := Option.some.inj (Except.ok.inj (read.symm.trans read'))
        simp only [ContentType.equals, Bool.and_eq_true] at equal
        exact .of_iequals read read'' json text equal.1.1

/-- A value that cannot be read, and a media type in another case. -/
theorem malformed_not_classified :
    ¬ Classified ⟨[("Content-Type", "application/json;")]⟩ ∧
      isJson ⟨[("Content-Type", "application/json;")]⟩ =
        .error (.domainError "malformed content type") ∧
      isJson ⟨[("Content-Type", "application/json")]⟩ = .ok true ∧
      isJson ⟨[("Content-Type", "Application/JSON")]⟩ = .ok false := by
  have thrown : isJson ⟨[("Content-Type", "application/json;")]⟩ =
      .error (.domainError "malformed content type") := by
    decide +kernel
  refine ⟨?_, thrown, by decide +kernel, by decide +kernel⟩
  intro classified
  obtain ⟨json, _, _, answered, _⟩ := classified.returns
  rw [thrown] at answered
  cases answered

end Message

end Fetchpp.Http
