import Fetchpp.Http.Url
import Fetchpp.Lib.Regex

/-!
# Content types

`content_type.cpp`, and the functions of `message.hpp` that set a content type
and read it back.  The pattern of `content_type::parse` is an expression of the
library; a `Reading` is one way to read a text by it, and there is one way at
most.
-/

namespace Fetchpp.Http

open Lib

/-- `content_type`, an array of three strings. -/
structure ContentType where
  type : String
  charset : String := ""
  boundary : String := ""
  deriving DecidableEq, Repr

/-- `\w` in the classic locale. -/
def isWord (c : Char) : Bool :=
  c.isAlphanum || c = '_'

/-- `[\w!#$&\-^]` -/
def isNameChar (c : Char) : Bool :=
  isWord c || "!#$&-^".toList.contains c

/-- `[\w!#$%^&\-~{}]` -/
def isValueChar (c : Char) : Bool :=
  isWord c || "!#$%^&-~\x7b\x7d".toList.contains c

/-- `\s` in the classic locale. -/
def isSpace (c : Char) : Bool :=
  " \t\n\x0b\x0c\r".toList.contains c

/-- Two characters are the same under `icase`. -/
def sameLetter (c d : Char) : Bool :=
  c.toLower = d.toLower

/-- A character that has no case. -/
def mark (c : Char) : Regex Char :=
  .one (fun d => d = c)

/-- `[…]{1,max}?` -/
def lazyRun (accepts : Char → Bool) (max : Nat) : Regex Char :=
  .repeated true 1 (some max) (.one accepts)

/-- `\s*` -/
def spaces : Regex Char :=
  .repeated false 0 none (.one isSpace)

/-- `[\w!#$&\-^]{1,127}?\/[\w!#$&\-^]{1,127}?` -/
def mediaType : Regex Char :=
  .seq (lazyRun isNameChar 127)
    (.seq (mark '/') (lazyRun isNameChar 127))

/-- `(?:;\s*name([\w!#$%^&\-~{}]{1,max}?))?` -/
def parameter (name : String) (max index : Nat) : Regex Char :=
  .repeated false 0 (some 1)
    (.seq (mark ';')
      (.seq spaces
        (.seq (.literal sameLetter name.toList)
          (.group index (lazyRun isValueChar max)))))

/-- The pattern of `content_type::parse`; `regex_match` takes the whole input,
between `^` and `$`. -/
def contentTypePattern : Regex Char :=
  .seq (.group 1 mediaType)
    (.seq (parameter "charset=" 127 2)
      (.seq (parameter "boundary=" 70 3) spaces))

/-- The text of a group, empty if the group took no part in the match. -/
def subMatch (captures : Captures Char) (index : Nat) : String :=
  String.ofList ((captures.lookup index).getD [])

/-- `content_type::parse` -/
def ContentType.parse (sv : String) : Except Exception ContentType :=
  match contentTypePattern.fullMatch sv.toList with
  | none => .error (.domainError "malformed content type")
  | some captures =>
      .ok ⟨subMatch captures 1, subMatch captures 2, subMatch captures 3⟩

/-- `to_string`: what it appends to `str` it does not assign to it. -/
def ContentType.toString (ct : ContentType) : String :=
  let str := ct.type
  let _ := if ct.charset ≠ "" then str ++ "; charset=" ++ ct.charset else str
  let _ := if ct.boundary ≠ "" then str ++ "; boundary=" ++ ct.boundary else str
  str

/-- `message`, as far as its fields are concerned. -/
structure Message where
  fields : List (String × String) := []
  deriving DecidableEq, Repr

/-- Two names of a field are the same. -/
def sameName (left right : String) : Bool :=
  left.toLower = right.toLower

namespace Message

/-- `fields::find` and the value there. -/
def find (name : String) (message : Message) : Option String :=
  (message.fields.find? (fun field => sameName field.1 name)).map Prod.snd

/-- `fields::set` -/
def set (name value : String) (message : Message) : Message :=
  { message with fields :=
      message.fields.filter (fun field => !sameName field.1 name) ++
        [(name, value)] }

/-- `message::content_type()` -/
def contentType (message : Message) : Except Exception (Option ContentType) :=
  match message.find "Content-Type" with
  | none => .ok none
  | some value => (ContentType.parse value).map some

/-- `message::set(http::content_type const&)` -/
def setContentType (ctype : ContentType) (message : Message) : Message :=
  message.set "Content-Type" ctype.toString

end Message

/-- One to `max` characters of a class. -/
@[ext] structure Run (accepts : Char → Bool) (max : Nat) where
  text : List Char
  accepted : ∀ c ∈ text, accepts c = true
  pos : 1 ≤ text.length
  le : text.length ≤ max

/-- A parameter as it may be written. -/
@[ext] structure Parameter (name : String) (max : Nat) where
  gap : List Char
  written : List Char
  value : Run isValueChar max
  gap_spaces : ∀ c ∈ gap, isSpace c = true
  written_name :
    List.Forall₂ (fun c d => sameLetter c d = true) name.toList written

def Parameter.text {name : String} {max : Nat} (parameter : Parameter name max) :
    List Char :=
  ';' :: (parameter.gap ++ (parameter.written ++ parameter.value.text))

def optionalText {name : String} {max : Nat} :
    Option (Parameter name max) → List Char
  | none => []
  | some parameter => parameter.text

def optionalValue {name : String} {max : Nat} :
    Option (Parameter name max) → List Char
  | none => []
  | some parameter => parameter.value.text

/-- One way to read a text as a content type. -/
@[ext] structure Reading where
  type : Run isNameChar 127
  subtype : Run isNameChar 127
  charset : Option (Parameter "charset=" 127)
  boundary : Option (Parameter "boundary=" 70)
  trailing : List Char
  trailing_spaces : ∀ c ∈ trailing, isSpace c = true

namespace Reading

def mediaText (reading : Reading) : List Char :=
  reading.type.text ++ '/' :: reading.subtype.text

def text (reading : Reading) : List Char :=
  reading.mediaText ++ (optionalText reading.charset ++
    (optionalText reading.boundary ++ reading.trailing))

def contentType (reading : Reading) : ContentType where
  type := String.ofList reading.mediaText
  charset := String.ofList (optionalValue reading.charset)
  boundary := String.ofList (optionalValue reading.boundary)

end Reading

theorem mark_matches {c : Char} {s : List Char} {captures : Captures Char} :
    (mark c).Matches s captures ↔ s = [c] ∧ captures = [] := by
  simp [mark, Regex.Matches]

theorem lazyRun_matches {accepts : Char → Bool} {max : Nat} (allows : 1 ≤ max)
    {s : List Char} {captures : Captures Char} :
    (lazyRun accepts max).Matches s captures ↔
      captures = [] ∧ ∃ run : Run accepts max, run.text = s := by
  rw [lazyRun, Regex.repeated_one_matches]
  constructor
  · rintro ⟨rfl, accepted, pos, most⟩
    have le : s.length ≤ 1 + (max - 1) := most _ rfl
    exact ⟨rfl, ⟨s, accepted, pos, by omega⟩, rfl⟩
  · rintro ⟨rfl, run, rfl⟩
    refine ⟨rfl, run.accepted, run.pos, ?_⟩
    intro bound bounded
    obtain rfl : max - 1 = bound := Option.some.inj bounded
    have le := run.le
    omega

theorem spaces_matches {s : List Char} {captures : Captures Char} :
    spaces.Matches s captures ↔
      captures = [] ∧ ∀ c ∈ s, isSpace c = true := by
  simp [spaces, Regex.repeated_one_matches]

theorem seq_matches {first second : Regex Char} {s : List Char}
    {captures : Captures Char} :
    (Regex.seq first second).Matches s captures ↔
      ∃ front captured back captured', first.Matches front captured ∧
        second.Matches back captured' ∧
        s = front ++ back ∧ captures = captured' ++ captured :=
  .rfl

theorem mediaType_matches {s : List Char} {captures : Captures Char} :
    mediaType.Matches s captures ↔ captures = [] ∧
      ∃ type subtype : Run isNameChar 127,
        s = type.text ++ '/' :: subtype.text := by
  simp only [mediaType, seq_matches, mark_matches,
    lazyRun_matches (show 1 ≤ 127 by decide)]
  constructor
  · rintro ⟨_, _, _, _, ⟨rfl, type, rfl⟩, ⟨_, _, _, _, ⟨rfl, rfl⟩,
      ⟨rfl, subtype, rfl⟩, rfl, rfl⟩, rfl, rfl⟩
    exact ⟨rfl, type, subtype, rfl⟩
  · rintro ⟨rfl, type, subtype, rfl⟩
    exact ⟨_, [], _, [], ⟨rfl, type, rfl⟩, ⟨_, [], _, [], ⟨rfl, rfl⟩,
      ⟨rfl, subtype, rfl⟩, rfl, rfl⟩, rfl, rfl⟩

def optionalCaptures {name : String} {max : Nat} (index : Nat) :
    Option (Parameter name max) → Captures Char
  | none => []
  | some parameter => [(index, parameter.value.text)]

theorem parameter_matches {name : String} {max index : Nat}
    (allows : 1 ≤ max) {s : List Char} {captures : Captures Char} :
    (parameter name max index).Matches s captures ↔
      ∃ written : Option (Parameter name max), optionalText written = s ∧
        captures = optionalCaptures index written := by
  rw [parameter, Regex.optional_matches]
  simp only [seq_matches, mark_matches, spaces_matches, Regex.literal_matches]
  constructor
  · rintro (⟨rfl, rfl⟩ | ⟨⟨_, _, _, _, ⟨rfl, rfl⟩, ⟨gap, _, _, _,
      ⟨rfl, gapSpaces⟩, ⟨written, _, value, _, ⟨rfl, same⟩, grouped, rfl, rfl⟩,
      rfl, rfl⟩, rfl, rfl⟩, _⟩)
    · exact ⟨none, rfl, rfl⟩
    · obtain ⟨_, matched, rfl⟩ := grouped
      obtain ⟨rfl, run, rfl⟩ := (lazyRun_matches allows).mp matched
      exact ⟨some ⟨gap, written, run, gapSpaces, same⟩, rfl, rfl⟩
  · rintro ⟨written, rfl, rfl⟩
    cases written with
    | none => exact .inl ⟨rfl, rfl⟩
    | some parameter =>
        let captured := optionalCaptures index (some parameter)
        have grouped : (Regex.group index (lazyRun isValueChar max)).Matches
            parameter.value.text captured :=
          ⟨[], (lazyRun_matches allows).mpr ⟨rfl, parameter.value, rfl⟩, rfl⟩
        exact .inr ⟨⟨[';'], [], _, captured, ⟨rfl, rfl⟩,
          ⟨parameter.gap, [], _, captured, ⟨rfl, parameter.gap_spaces⟩,
          ⟨parameter.written, [], _, captured, ⟨rfl, parameter.written_name⟩,
          grouped, rfl, rfl⟩, rfl, rfl⟩, rfl, rfl⟩, by
            simp [optionalText, Parameter.text]⟩

theorem contentTypePattern_matches {s : List Char}
    {captures : Captures Char} :
    contentTypePattern.Matches s captures ↔
      ∃ reading : Reading, reading.text = s ∧
        captures = optionalCaptures 3 reading.boundary ++
          (optionalCaptures 2 reading.charset ++ [(1, reading.mediaText)]) := by
  simp only [contentTypePattern, seq_matches, spaces_matches,
    parameter_matches (show 1 ≤ 127 by decide),
    parameter_matches (show 1 ≤ 70 by decide)]
  constructor
  · rintro ⟨_, _, _, _, ⟨_, media, rfl⟩, ⟨_, _, _, _, ⟨charset, rfl, rfl⟩,
      ⟨_, _, trailing, _, ⟨boundary, rfl, rfl⟩, ⟨rfl, trailingSpaces⟩, rfl,
      rfl⟩, rfl, rfl⟩, rfl, rfl⟩
    obtain ⟨rfl, type, subtype, rfl⟩ := mediaType_matches.mp media
    exact ⟨⟨type, subtype, charset, boundary, trailing, trailingSpaces⟩, rfl,
      by simp [Reading.mediaText]⟩
  · rintro ⟨reading, rfl, rfl⟩
    have media : mediaType.Matches reading.mediaText [] :=
      mediaType_matches.mpr ⟨rfl, reading.type, reading.subtype, rfl⟩
    exact ⟨reading.mediaText, _, _, _, ⟨[], media, rfl⟩,
      ⟨_, _, _, _, ⟨reading.charset, rfl, rfl⟩, ⟨_, _, reading.trailing, [],
        ⟨reading.boundary, rfl, rfl⟩, ⟨rfl, reading.trailing_spaces⟩, rfl, rfl⟩,
        rfl, rfl⟩, rfl, by simp⟩

open Regex

theorem of_isSpace {holds : Char → Bool}
    (listed : " \t\n\x0b\x0c\r".toList.all holds = true) {c : Char}
    (space : isSpace c = true) : holds c = true :=
  List.all_eq_true.mp listed c (by simpa [isSpace] using space)

theorem isNameChar_of_isSpace {c : Char} (space : isSpace c = true) :
    isNameChar c = false := by
  have refused : decide (isNameChar c = false) = true :=
    @of_isSpace (fun d => isNameChar d = false) (by decide) c space
  exact of_decide_eq_true refused

theorem isValueChar_of_isSpace {c : Char} (space : isSpace c = true) :
    isValueChar c = false := by
  have refused : decide (isValueChar c = false) = true :=
    @of_isSpace (fun d => isValueChar d = false) (by decide) c space
  exact of_decide_eq_true refused

theorem toLower_of_isSpace {c : Char} (space : isSpace c = true) :
    c.toLower = c := by
  have caseless : decide (c.toLower = c) = true :=
    @of_isSpace (fun d => d.toLower = d) (by decide) c space
  exact of_decide_eq_true caseless

/-- What may follow a value: white space, a parameter or nothing. -/
def Follows (s : List Char) : Prop :=
  ∀ c rest, s = c :: rest → c = ';' ∨ isSpace c = true

theorem Follows.stops_name {s : List Char} (follows : Follows s) :
    Stops isNameChar s := by
  intro c rest same
  rcases follows c rest same with rfl | space
  · decide
  · exact isNameChar_of_isSpace space

theorem Follows.stops_value {s : List Char} (follows : Follows s) :
    Stops isValueChar s := by
  intro c rest same
  rcases follows c rest same with rfl | space
  · decide
  · exact isValueChar_of_isSpace space

theorem follows_spaces {s : List Char} (spaces : ∀ c ∈ s, isSpace c = true) :
    Follows s := by
  intro c rest same
  exact .inr (spaces c (by simp [same]))

theorem Follows.optional {name : String} {max : Nat} {s : List Char}
    (follows : Follows s) (written : Option (Parameter name max)) :
    Follows (optionalText written ++ s) := by
  cases written with
  | none => exact follows
  | some parameter =>
      intro c rest same
      exact .inl (List.cons.inj same).1.symm

/-- The name of a parameter ends the white space before it. -/
theorem Parameter.stops_gap {name : String} {max : Nat}
    (parameter : Parameter name max) {n : Char} {rest : List Char}
    (named : name.toList = n :: rest) (letter : isSpace n.toLower = false)
    (s : List Char) : Stops isSpace (parameter.written ++ s) := by
  have written := parameter.written_name
  rw [named] at written
  intro c others same
  cases spelled : parameter.written with
  | nil =>
      rw [spelled] at written
      cases written
  | cons d spelling =>
      rw [spelled] at written same
      cases written with
      | cons first _ =>
          obtain rfl := (List.cons.inj same).1
          have lower : n.toLower = d.toLower := by simpa [sameLetter] using first
          cases space : isSpace d with
          | false => rfl
          | true =>
              rw [lower, toLower_of_isSpace space, space] at letter
              cases letter

theorem Parameter.initial_eq {name name' : String} {max max' : Nat}
    (parameter : Parameter name max) (parameter' : Parameter name' max')
    {n n' : Char} {rest rest' s s' : List Char} (named : name.toList = n :: rest)
    (named' : name'.toList = n' :: rest') (letter : isSpace n.toLower = false)
    (letter' : isSpace n'.toLower = false)
    (same : parameter.text ++ s = parameter'.text ++ s') :
    n.toLower = n'.toLower := by
  have stops := parameter.stops_gap named letter (parameter.value.text ++ s)
  have stops' := parameter'.stops_gap named' letter'
    (parameter'.value.text ++ s')
  simp only [Parameter.text, List.cons_append, List.append_assoc] at same
  obtain ⟨_, after⟩ := run_unique parameter.gap_spaces parameter'.gap_spaces
    stops stops' (List.cons.inj same).2
  have written := parameter.written_name
  have written' := parameter'.written_name
  rw [named] at written
  rw [named'] at written'
  generalize parameter.written = spelled at written after
  generalize parameter'.written = spelled' at written' after
  cases written with
  | cons first _ =>
      cases written' with
      | cons first' _ =>
          obtain rfl := (List.cons.inj after).1
          simp only [sameLetter, decide_eq_true_eq] at first first'
          rw [first, first']

/-- A written parameter ends in one place only. -/
theorem Parameter.text_unique {name : String} {max : Nat}
    {parameter parameter' : Parameter name max} {n : Char}
    {rest s s' : List Char} (named : name.toList = n :: rest)
    (letter : isSpace n.toLower = false) (follows : Follows s)
    (follows' : Follows s')
    (same : parameter.text ++ s = parameter'.text ++ s') :
    parameter = parameter' ∧ s = s' := by
  have stops := parameter.stops_gap named letter (parameter.value.text ++ s)
  have stops' := parameter'.stops_gap named letter
    (parameter'.value.text ++ s')
  simp only [Parameter.text, List.cons_append, List.append_assoc] at same
  obtain ⟨gap, after⟩ := run_unique parameter.gap_spaces parameter'.gap_spaces
    stops stops' (List.cons.inj same).2
  have lengths : parameter.written.length = parameter'.written.length :=
    parameter.written_name.length_eq.symm.trans
      parameter'.written_name.length_eq
  obtain ⟨written, values⟩ := List.append_inj after lengths
  obtain ⟨value, ends⟩ := run_unique parameter.value.accepted
    parameter'.value.accepted follows.stops_value follows'.stops_value values
  exact ⟨Parameter.ext gap written (Run.ext value), ends⟩

theorem optionalText_unique {name : String} {max : Nat}
    {written written' : Option (Parameter name max)} {n : Char}
    {rest s s' : List Char} (named : name.toList = n :: rest)
    (letter : isSpace n.toLower = false) (follows : Follows s)
    (follows' : Follows s')
    (absent : ∀ (parameter : Parameter name max) later,
      s ≠ parameter.text ++ later)
    (absent' : ∀ (parameter : Parameter name max) later,
      s' ≠ parameter.text ++ later)
    (same : optionalText written ++ s = optionalText written' ++ s') :
    written = written' ∧ s = s' := by
  cases written with
  | none =>
      cases written' with
      | none => exact ⟨rfl, same⟩
      | some parameter' => exact (absent parameter' s' same).elim
  | some parameter =>
      cases written' with
      | none => exact (absent' parameter s same.symm).elim
      | some parameter' =>
          obtain ⟨rfl, ends⟩ :=
            Parameter.text_unique named letter follows follows' same
          exact ⟨rfl, ends⟩

theorem spaces_ne_parameter {name : String} {max : Nat} {s : List Char}
    (spaces : ∀ c ∈ s, isSpace c = true) (parameter : Parameter name max)
    (later : List Char) : s ≠ parameter.text ++ later := by
  rintro rfl
  have mark := spaces ';' (by simp [Parameter.text])
  cases mark

theorem boundary_ne_charset {s : List Char}
    (spaces : ∀ c ∈ s, isSpace c = true)
    (written : Option (Parameter "boundary=" 70))
    (parameter : Parameter "charset=" 127) (later : List Char) :
    optionalText written ++ s ≠ parameter.text ++ later := by
  cases written with
  | none => exact spaces_ne_parameter spaces parameter later
  | some boundary =>
      intro same
      have initial := boundary.initial_eq parameter rfl rfl (by decide)
        (by decide) same
      revert initial
      decide

theorem Reading.text_unique {reading reading' : Reading}
    (same : reading.text = reading'.text) : reading = reading' := by
  have space := reading.trailing_spaces
  have space' := reading'.trailing_spaces
  have afterBoundary := follows_spaces space
  have afterBoundary' := follows_spaces space'
  have afterCharset := afterBoundary.optional reading.boundary
  have afterCharset' := afterBoundary'.optional reading'.boundary
  have afterMedia := afterCharset.optional reading.charset
  have afterMedia' := afterCharset'.optional reading'.charset
  simp only [Reading.text, Reading.mediaText, List.append_assoc,
    List.cons_append] at same
  obtain ⟨type, behindType⟩ := run_unique reading.type.accepted
    reading'.type.accepted (by rintro c rest ⟨rfl⟩; decide)
    (by rintro c rest ⟨rfl⟩; decide) same
  obtain ⟨subtype, behindMedia⟩ := run_unique reading.subtype.accepted
    reading'.subtype.accepted afterMedia.stops_name afterMedia'.stops_name
    (List.cons.inj behindType).2
  obtain ⟨charset, behindCharset⟩ := optionalText_unique rfl (by decide)
    afterCharset afterCharset' (boundary_ne_charset space reading.boundary)
    (boundary_ne_charset space' reading'.boundary) behindMedia
  obtain ⟨boundary, trailing⟩ := optionalText_unique rfl (by decide)
    afterBoundary afterBoundary' (spaces_ne_parameter space)
    (spaces_ne_parameter space') behindCharset
  exact Reading.ext (Run.ext type) (Run.ext subtype) charset boundary trailing

theorem Reading.subMatches (reading : Reading) :
    (⟨subMatch (optionalCaptures 3 reading.boundary ++
        (optionalCaptures 2 reading.charset ++ [(1, reading.mediaText)])) 1,
      subMatch (optionalCaptures 3 reading.boundary ++
        (optionalCaptures 2 reading.charset ++ [(1, reading.mediaText)])) 2,
      subMatch (optionalCaptures 3 reading.boundary ++
        (optionalCaptures 2 reading.charset ++ [(1, reading.mediaText)])) 3⟩ :
      ContentType) = reading.contentType := by
  unfold Reading.contentType
  cases reading.charset with
  | none => cases reading.boundary <;> rfl
  | some charset => cases reading.boundary <;> rfl

/-- A text is accepted exactly if it can be read, and the result is what was
read. -/
theorem parse_eq_ok_iff {text : String} {ct : ContentType} :
    ContentType.parse text = .ok ct ↔
      ∃ reading : Reading, reading.text = text.toList ∧
        reading.contentType = ct := by
  constructor
  · intro parsed
    unfold ContentType.parse at parsed
    split at parsed
    case h_1 => cases parsed
    case h_2 captures matched =>
      obtain ⟨reading, same, rfl⟩ :=
        contentTypePattern_matches.mp (Regex.fullMatch_matches matched)
      rw [reading.subMatches] at parsed
      exact ⟨reading, same, Except.ok.inj parsed⟩
  · rintro ⟨reading, same, rfl⟩
    have matched := contentTypePattern_matches.mpr ⟨reading, same, rfl⟩
    have whole := Regex.fullMatch_of_unique matched (by
      intro other matched'
      obtain ⟨reading', same', rfl⟩ := contentTypePattern_matches.mp matched'
      rw [Reading.text_unique (same'.trans same.symm)])
    simp only [ContentType.parse, whole, reading.subMatches]

example : ContentType.parse "application/json; charset=ascii; boundary=--paf--" =
    .ok ⟨"application/json", "ascii", "--paf--"⟩ := by
  decide +kernel

theorem parse_rejects {text : String}
    (unread : ¬ ∃ reading : Reading, reading.text = text.toList) :
    ContentType.parse text =
      .error (.domainError "malformed content type") := by
  cases parsed : ContentType.parse text with
  | ok ct =>
      obtain ⟨reading, same, _⟩ := parse_eq_ok_iff.mp parsed
      exact (unread ⟨reading, same⟩).elim
  | error exception =>
      unfold ContentType.parse at parsed
      split at parsed
      case h_1 => rw [← Except.error.inj parsed]
      case h_2 => cases parsed

/-- A text has one reading and is parsed as what was read, or it has none and
is rejected. -/
theorem parse_reads (text : String) :
    ((∃! reading : Reading, reading.text = text.toList) ∧
      ∀ reading : Reading, reading.text = text.toList →
        ContentType.parse text = .ok reading.contentType) ∨
    ((¬ ∃ reading : Reading, reading.text = text.toList) ∧
      ContentType.parse text =
        .error (.domainError "malformed content type")) := by
  by_cases read : ∃ reading : Reading, reading.text = text.toList
  · obtain ⟨reading, same⟩ := read
    refine .inl ⟨⟨reading, same, ?_⟩, ?_⟩
    · intro other same'
      exact Reading.text_unique (same'.trans same.symm)
    · intro other same'
      exact parse_eq_ok_iff.mpr ⟨other, same', rfl⟩
  · exact .inr ⟨read, parse_rejects read⟩

/-- A boundary before the charset. -/
example : ContentType.parse "text/plain; boundary=b; charset=c" =
    .error (.domainError "malformed content type") := by
  decide +kernel

theorem parse_toString {text : String} {ct : ContentType}
    (parsed : ContentType.parse text = .ok ct) :
    ContentType.parse ct.toString = .ok ⟨ct.type, "", ""⟩ := by
  obtain ⟨reading, _, rfl⟩ := parse_eq_ok_iff.mp parsed
  refine parse_eq_ok_iff.mpr
    ⟨⟨reading.type, reading.subtype, none, none, [], by simp⟩, ?_, rfl⟩
  simp [Reading.text, Reading.mediaText, Reading.contentType,
    ContentType.toString, optionalText]

theorem Message.find_set (name value : String) (message : Message) :
    (message.set name value).find name = some value := by
  have removed : ∀ field ∈ message.fields.filter
      (fun field => !sameName field.1 name), ¬ sameName field.1 name = true := by
    intro field member
    simpa using (List.mem_filter.mp member).2
  rw [Message.find, Message.set, List.find?_append,
    List.find?_eq_none.mpr removed]
  simp [sameName]

/-- A content type that was parsed is read back from what `to_string` writes
of it, and from a message it was set on, exactly if it has no parameters. -/
theorem roundTrip_iff {text : String} {ct : ContentType}
    (parsed : ContentType.parse text = .ok ct) :
    (ContentType.parse ct.toString = .ok ct ∧
      ∀ message : Message,
        (message.setContentType ct).contentType = .ok (some ct)) ↔
      ct.charset = "" ∧ ct.boundary = "" := by
  have bare := parse_toString parsed
  constructor
  · rintro ⟨back, _⟩
    rw [bare] at back
    have same := Except.ok.inj back
    rw [← same]
    exact ⟨rfl, rfl⟩
  · rintro ⟨charset, boundary⟩
    have same : (⟨ct.type, "", ""⟩ : ContentType) =
        ⟨ct.type, ct.charset, ct.boundary⟩ := by
      rw [charset, boundary]
    rw [same] at bare
    refine ⟨bare, fun message => ?_⟩
    simp only [Message.contentType, Message.setContentType, Message.find_set,
      bare, Except.map]

theorem roundTrip_of_plain :
    ContentType.parse "text/plain " = .ok ⟨"text/plain", "", ""⟩ ∧
      ContentType.parse (ContentType.toString ⟨"text/plain", "", ""⟩) =
        .ok ⟨"text/plain", "", ""⟩ := by
  have parsed : ContentType.parse "text/plain " =
      .ok ⟨"text/plain", "", ""⟩ := by
    decide +kernel
  exact ⟨parsed, ((roundTrip_iff parsed).mpr ⟨rfl, rfl⟩).1⟩

/-- The charset is lost. -/
theorem charset_not_roundTrip :
    ∃ ct, ContentType.parse "application/json; charset=UTF8" = .ok ct ∧
      ContentType.parse ct.toString ≠ .ok ct ∧
      (Message.setContentType ct {}).contentType ≠ .ok (some ct) := by
  refine ⟨⟨"application/json", "UTF8", ""⟩, ?_, ?_, ?_⟩
  · decide +kernel
  · decide +kernel
  · decide +kernel

end Fetchpp.Http
