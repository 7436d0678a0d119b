import Mathlib.Data.List.Basic

/-!
# Percent encoding

A byte may be written as `%` and two hexadecimal digits; a `%` without them
stands for itself.  A byte is written as the character it stands for.
-/

namespace Fetchpp.Lib.Percent

def hexValue (c : Char) : Option Nat :=
  if '0' ≤ c ∧ c ≤ '9' then some (c.toNat - '0'.toNat)
  else if 'A' ≤ c ∧ c ≤ 'F' then some (c.toNat - 'A'.toNat + 10)
  else if 'a' ≤ c ∧ c ≤ 'f' then some (c.toNat - 'a'.toNat + 10)
  else none

def escaped (high low : Char) : Option Char :=
  match hexValue high, hexValue low with
  | some value, some value' => some (.ofNat (16 * value + value'))
  | _, _ => none

def decode : List Char → List Char
  | '%' :: high :: low :: rest =>
      match escaped high low with
      | some c => c :: decode rest
      | none => '%' :: decode (high :: low :: rest)
  | c :: rest => c :: decode rest
  | [] => []

/-- Nothing in the text is percent-encoded. -/
def isPlain : List Char → Bool
  | '%' :: high :: low :: rest =>
      (escaped high low).isNone && isPlain (high :: low :: rest)
  | _ :: rest => isPlain rest
  | [] => true

theorem decode_plain {text : List Char} (plain : isPlain text = true) :
    decode text = text := by
  induction text using decode.induct with
  | case1 high low rest c written induction =>
      simp [isPlain, written] at plain
  | case2 high low rest unwritten induction =>
      rw [isPlain, unwritten] at plain
      simp only [decode, unwritten]
      rw [induction plain]
  | case3 c rest unescaped induction =>
      rw [isPlain] at plain
      · rw [decode, induction plain]
        exact unescaped
      · exact unescaped
  | case4 => rfl

theorem decode_length_le (text : List Char) :
    (decode text).length ≤ text.length := by
  induction text using decode.induct with
  | case1 high low rest c written induction =>
      simp only [decode, written, List.length_cons]
      omega
  | case2 high low rest unwritten induction =>
      simp only [decode, unwritten, List.length_cons] at induction ⊢
      omega
  | case3 c rest unescaped induction =>
      rw [decode]
      · simpa using induction
      · exact unescaped
  | case4 => exact Nat.le_refl 0

theorem decode_length_lt {text : List Char} (encoded : isPlain text = false) :
    (decode text).length < text.length := by
  induction text using decode.induct with
  | case1 high low rest c written induction =>
      have le := decode_length_le rest
      simp only [decode, written, List.length_cons]
      omega
  | case2 high low rest unwritten induction =>
      rw [isPlain, unwritten] at encoded
      have lt := induction encoded
      simp only [decode, unwritten, List.length_cons] at lt ⊢
      omega
  | case3 c rest unescaped induction =>
      rw [isPlain] at encoded
      · rw [decode]
        · simpa using induction encoded
        · exact unescaped
      · exact unescaped
  | case4 => cases encoded

theorem decode_eq_self_iff {text : List Char} :
    decode text = text ↔ isPlain text = true := by
  constructor
  · intro same
    cases plain : isPlain text with
    | true => rfl
    | false =>
        have lt := decode_length_lt plain
        rw [same] at lt
        omega
  · exact decode_plain

theorem decode_cons_ne_nil (c : Char) (rest : List Char) :
    decode (c :: rest) ≠ [] := by
  unfold decode
  split
  · split <;> simp
  · simp
  · contradiction

theorem decode_eq_nil_iff {text : List Char} :
    decode text = [] ↔ text = [] := by
  cases text with
  | nil => simp [decode]
  | cons c rest => simp [decode_cons_ne_nil]

theorem hexValue_of_escaped {high low c : Char}
    (written : escaped high low = some c) :
    hexValue high ≠ none ∧ hexValue low ≠ none := by
  unfold escaped at written
  split at written
  case h_1 value value' first second => simp [first, second]
  case h_2 => cases written

theorem mem_decode {c : Char} (notMark : c ≠ '%') (notDigit : hexValue c = none)
    {text : List Char} (member : c ∈ text) : c ∈ decode text := by
  induction text using decode.induct with
  | case1 high low rest d written induction =>
      obtain ⟨first, second⟩ := hexValue_of_escaped written
      have notHigh : c ≠ high := fun same => first (same ▸ notDigit)
      have notLow : c ≠ low := fun same => second (same ▸ notDigit)
      have later : c ∈ rest := by
        simpa [notMark, notHigh, notLow] using member
      simp only [decode, written]
      exact List.mem_cons_of_mem d (induction later)
  | case2 high low rest unwritten induction =>
      have later : c ∈ high :: low :: rest := by
        rcases List.mem_cons.mp member with mark | later
        · exact (notMark mark).elim
        · exact later
      simp only [decode, unwritten]
      exact List.mem_cons_of_mem '%' (induction later)
  | case3 d rest unescaped induction =>
      rw [decode]
      · rcases List.mem_cons.mp member with rfl | later
        · exact List.mem_cons_self
        · exact List.mem_cons_of_mem d (induction later)
      · exact unescaped
  | case4 => cases member

end Fetchpp.Lib.Percent
