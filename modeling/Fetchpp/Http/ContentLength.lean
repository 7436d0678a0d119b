import Fetchpp.Http.ContentType
import Fetchpp.Lib.Numeral

/-!
# The length a message declares

`content_length()` of `message.hpp` converts the `Content-Length` header into a
variable that it does not initialize, and looks neither at how the conversion
ended nor at where.
-/

namespace Fetchpp.Http

open Lib

namespace Message

/-- `content_length()`; `has_content_length` and `at` look for the same field,
and `result` is what the variable holds before it is written to. -/
def contentLength (result : UInt64) (message : Message) : Option UInt64 :=
  match message.find "Content-Length" with
  | none => none
  | some view =>
      let conversion := fromChars UInt64.size view.toList result.toNat
      some (.ofNat conversion.result)

/-- The header is a numeral of this number, which a `size_t` can hold. -/
def Declares (message : Message) (n : UInt64) : Prop :=
  ∃ value, message.find "Content-Length" = some value ∧
    Numeral value.toList n.toNat

/-- The header is a numeral in the range of `size_t`. -/
def Measured (value : String) : Prop :=
  value ≠ "" ∧ (∀ c ∈ value.toList, c.isDigit = true) ∧
    Nat.ofDigitChars 10 value.toList 0 < UInt64.size

theorem Declares.measured {message : Message} {n : UInt64} {value : String}
    (declares : message.Declares n)
    (found : message.find "Content-Length" = some value) : Measured value := by
  obtain ⟨value', found', numeral⟩ := declares
  obtain rfl := Option.some.inj (found'.symm.trans found)
  refine ⟨?_, numeral.digits, ?_⟩
  · rintro rfl
    exact numeral.nonempty rfl
  · rw [numeral.value]
    exact n.toNat_lt

theorem Measured.numeral {value : String} (measured : Measured value) :
    Numeral value.toList (Nat.ofDigitChars 10 value.toList 0) where
  nonempty := by simpa using measured.1
  digits := measured.2.1
  value := rfl

theorem contentLength_measured {message : Message} {value : String}
    (found : message.find "Content-Length" = some value)
    (measured : Measured value) (result : UInt64) :
    message.contentLength result =
      some (.ofNat (Nat.ofDigitChars 10 value.toList 0)) := by
  unfold contentLength
  rw [found]
  exact congrArg (fun conversion => some (UInt64.ofNat conversion.result))
    (fromChars_numeral measured.numeral measured.2.2 result.toNat)

/-- `content_length()` tells the lengths that are declared from those that are
not exactly if there is no header or if it is a numeral that fits. -/
theorem contentLength_iff (message : Message) (result : UInt64) :
    (∀ n, message.contentLength result = some n ↔ message.Declares n) ↔
      ∀ value, message.find "Content-Length" = some value →
        Measured value := by
  constructor
  · intro tells value found
    obtain ⟨n, returned⟩ : ∃ n, message.contentLength result = some n := by
      rw [contentLength, found]
      exact ⟨_, rfl⟩
    exact ((tells n).mp returned).measured found
  · intro all n
    constructor
    · intro returned
      cases found : message.find "Content-Length" with
      | none =>
          rw [contentLength, found] at returned
          cases returned
      | some value =>
          have measured := all value found
          rw [contentLength_measured found measured] at returned
          obtain rfl := Option.some.inj returned
          refine ⟨value, found, ?_⟩
          rw [UInt64.toNat_ofNat_of_lt' measured.2.2]
          exact measured.numeral
    · rintro ⟨value, found, numeral⟩
      have measured : Measured value :=
        Declares.measured ⟨value, found, numeral⟩ found
      rw [contentLength_measured found measured, numeral.value,
        UInt64.ofNat_toNat]

/-- Nothing is read, and the front of a list is read. -/
theorem contentLength_not_declared :
    contentLength 7 ⟨[("Content-Length", "")]⟩ = some 7 ∧
      contentLength 7 ⟨[("Content-Length", "12, 12")]⟩ = some 12 ∧
      ¬ ∀ n, contentLength 7 ⟨[("Content-Length", "")]⟩ = some n ↔
        Declares ⟨[("Content-Length", "")]⟩ n := by
  have unread : contentLength 7 ⟨[("Content-Length", "")]⟩ = some 7 := by
    decide +kernel
  refine ⟨unread, by decide +kernel, ?_⟩
  intro tells
  obtain ⟨value, found, numeral⟩ := (tells 7).mp unread
  have empty : value = "" := by
    have same : (⟨[("Content-Length", "")]⟩ : Message).find "Content-Length" =
        some "" := by
      decide +kernel
    exact Option.some.inj (found.symm.trans same)
  exact numeral.nonempty (by rw [empty]; rfl)

end Message

end Fetchpp.Http
