import Fetchpp.Http.Message

/-!
# A parser of responses

A response is a status line and header lines up to the first empty line, and a
body that `Content-Length` or the end of the stream delimits.  A byte is
written as the character it stands for.  It is one codec that the theorems
about transports apply to.
-/

namespace Fetchpp.Http

structure TextResponse where
  status : Nat
  header : List Char
  body : List Char
  deriving DecidableEq, Repr

/-- Splits behind the first empty line. -/
def splitHeader : List Char → Option (List Char × List Char)
  | [] => none
  | c :: rest =>
      if ['\r', '\n', '\r', '\n'].isPrefixOf (c :: rest) then
        some ((c :: rest).take 4, (c :: rest).drop 4)
      else
        match splitHeader rest with
        | none => none
        | some (header, body) => some (c :: header, body)

def digits (text : List Char) : Nat :=
  text.foldl (fun value c => 10 * value + (c.toNat - '0'.toNat)) 0

/-- The three digits behind `HTTP/1.1 `. -/
def statusOf (header : List Char) : Nat :=
  digits ((header.drop 9).take 3)

def contentLength : List Char → Option Nat
  | [] => none
  | c :: rest =>
      if "Content-Length: ".toList.isPrefixOf (c :: rest) then
        some (digits (((c :: rest).drop 16).takeWhile Char.isDigit))
      else contentLength rest

/-- The number of bytes of the body, or `none` if the stream delimits it. -/
def bodyLength (skip : Bool) (header : List Char) : Option Nat :=
  if skip || statusOf header / 100 = 1 || statusOf header = 204 ||
      statusOf header = 304 then
    some 0
  else contentLength header

def parseText (skip : Bool) (bytes : List Char) :
    Lib.Progress TextResponse ErrorCode :=
  match splitHeader bytes with
  | none => .more 0
  | some (header, rest) =>
      match bodyLength skip header with
      | none => .more bytes.length
      | some length =>
          if length ≤ rest.length then
            .done (header.length + length)
              ⟨statusOf header, header, rest.take length⟩
          else .more header.length

def finishText (skip : Bool) (bytes : List Char) :
    Except ErrorCode TextResponse :=
  match splitHeader bytes with
  | none => .error (.other 0)
  | some (header, rest) =>
      match bodyLength skip header with
      | none => .ok ⟨statusOf header, header, rest⟩
      | some _ => .error (.other 0)

def textCodec : Codec Char TextResponse where
  parser skip := ⟨parseText skip, finishText skip⟩
  status := TextResponse.status

theorem splitHeader_eq {bytes header rest : List Char}
    (split : splitHeader bytes = some (header, rest)) :
    bytes = header ++ rest := by
  induction bytes generalizing header with
  | nil => cases split
  | cons c tail induction =>
      unfold splitHeader at split
      split at split
      · simp only [Option.some.injEq, Prod.mk.injEq] at split
        rw [← split.1, ← split.2, List.take_append_drop]
      · cases inner : splitHeader tail with
        | none => simp [inner] at split
        | some parts =>
            simp only [inner, Option.some.injEq, Prod.mk.injEq] at split
            obtain ⟨rfl, rfl⟩ := split
            rw [induction inner]
            rfl

theorem splitHeader_length {bytes header rest : List Char}
    (split : splitHeader bytes = some (header, rest)) : 4 ≤ bytes.length := by
  induction bytes generalizing header with
  | nil => cases split
  | cons c tail induction =>
      unfold splitHeader at split
      split at split
      case isTrue here =>
        exact (List.isPrefixOf_iff_prefix.mp here).length_le
      case isFalse =>
        cases inner : splitHeader tail with
        | none => simp [inner] at split
        | some parts =>
            simp only [inner, Option.some.injEq, Prod.mk.injEq] at split
            have found : splitHeader tail = some (parts.1, rest) := by
              rw [inner, ← split.2]
            exact Nat.le_succ_of_le (induction found)

theorem splitHeader_append {bytes header rest : List Char}
    (later : List Char) (split : splitHeader bytes = some (header, rest)) :
    splitHeader (bytes ++ later) = some (header, rest ++ later) := by
  induction bytes generalizing header with
  | nil => cases split
  | cons c tail induction =>
      have long := splitHeader_length split
      unfold splitHeader at split
      rw [List.cons_append, splitHeader, ← List.cons_append]
      have same : ['\r', '\n', '\r', '\n'].isPrefixOf (c :: tail ++ later) =
          ['\r', '\n', '\r', '\n'].isPrefixOf (c :: tail) := by
        rw [Bool.eq_iff_iff, List.isPrefixOf_iff_prefix,
          List.isPrefixOf_iff_prefix]
        constructor
        · intro arrived
          exact List.prefix_of_prefix_length_le arrived
            (List.prefix_append _ _) long
        · intro found
          exact found.trans (List.prefix_append _ _)
      rw [same]
      split at split
      case isTrue here =>
        rw [if_pos here, List.take_append_of_le_length long,
          List.drop_append_of_le_length long]
        simp only [Option.some.injEq, Prod.mk.injEq] at split
        rw [split.1, split.2]
      case isFalse notHere =>
        rw [if_neg notHere]
        cases inner : splitHeader tail with
        | none => simp [inner] at split
        | some parts =>
            obtain ⟨header', rest'⟩ := parts
            simp only [inner, Option.some.injEq, Prod.mk.injEq] at split
            obtain ⟨rfl, rfl⟩ := split
            rw [induction inner]

theorem parseText_done {skip : Bool} {bytes : List Char} {used : Nat}
    {response : TextResponse} (parse : parseText skip bytes = .done used response) :
    ∃ header rest length, splitHeader bytes = some (header, rest) ∧
      bodyLength skip header = some length ∧ length ≤ rest.length ∧
      used = header.length + length ∧
      response = ⟨statusOf header, header, rest.take length⟩ := by
  unfold parseText at parse
  split at parse
  case h_1 => cases parse
  case h_2 header rest split =>
    split at parse
    case h_1 => cases parse
    case h_2 length delimited =>
      split at parse
      case isTrue arrived =>
        simp only [Lib.Progress.done.injEq] at parse
        exact ⟨header, rest, length, split, delimited, arrived,
          parse.1.symm, parse.2.symm⟩
      case isFalse => cases parse

theorem finishText_ok {skip : Bool} {bytes : List Char}
    {response : TextResponse} (finish : finishText skip bytes = .ok response) :
    ∃ header rest, splitHeader bytes = some (header, rest) ∧
      bodyLength skip header = none := by
  unfold finishText at finish
  split at finish
  case h_1 => cases finish
  case h_2 header rest split =>
    split at finish
    case h_1 undelimited => exact ⟨header, rest, split, undelimited⟩
    case h_2 => cases finish

theorem parseText_accepts (skip : Bool) (bytes : List Char) (used : Nat)
    (error : ErrorCode) : parseText skip bytes ≠ .failed used error := by
  unfold parseText
  split
  · nofun
  · split
    · nofun
    · split <;> nofun

theorem textCodec_lawful : textCodec.Lawful where
  parser skip :=
    { parse_nil := rfl
      done_le := by
        intro bytes used response parse
        obtain ⟨header, rest, length, split, _, arrived, rfl, _⟩ :=
          parseText_done parse
        rw [splitHeader_eq split, List.length_append]
        exact Nat.add_le_add_left arrived _
      done_append := by
        intro bytes used response later parse
        obtain ⟨header, rest, length, split, delimited, arrived, rfl, rfl⟩ :=
          parseText_done parse
        have longer : length ≤ (rest ++ later).length := by
          rw [List.length_append]
          exact Nat.le_add_right_of_le arrived
        simp only [textCodec, parseText, splitHeader_append later split,
          delimited, if_pos longer, List.take_append_of_le_length arrived]
      finish_nil := by
        intro response finish
        cases finish
      finish_used := by
        intro bytes used response parse finish
        obtain ⟨header, rest, split, undelimited⟩ := finishText_ok finish
        simp only [textCodec, parseText, split, undelimited,
          Lib.Progress.more.injEq] at parse
        exact parse.symm
      finish_open := by
        intro bytes used response later _ finish used' response' parse
        obtain ⟨header, rest, split, undelimited⟩ := finishText_ok finish
        simp [textCodec, parseText, splitHeader_append later split,
          undelimited] at parse }
  skip_finish := by
    intro bytes used response _ finish
    have finished : finishText true bytes = .ok response := finish
    obtain ⟨header, rest, _, undelimited⟩ := finishText_ok finished
    simp [bodyLength] at undelimited

end Fetchpp.Http
