import Mathlib.Data.List.Basic

/-!
# Base64

Three bytes are written as four characters of six bits each.  One or two bytes
that are left over are filled up with zero bits, and the text with `=`.
Decoding gives back what was encoded, whatever the length.
-/

namespace Fetchpp.Lib.Base64

def alphabet : List Char :=
  "ABCDEFGHIJKLMNOPQRSTUVWXYZabcdefghijklmnopqrstuvwxyz0123456789+/".toList

def digit (value : Nat) : Char :=
  alphabet.getD value '='

def value? (c : Char) : Option Nat :=
  alphabet.findIdx? (fun d => d = c)

def encode : List Nat → List Char
  | [] => []
  | [a] => [digit (a / 4), digit (a % 4 * 16), '=', '=']
  | [a, b] =>
      [digit (a / 4), digit (a % 4 * 16 + b / 16), digit (b % 16 * 4), '=']
  | a :: b :: c :: rest =>
      digit (a / 4) :: digit (a % 4 * 16 + b / 16) ::
        digit (b % 16 * 4 + c / 64) :: digit (c % 64) :: encode rest

/-- The bytes of four characters, the last two of which may be `=`. -/
def decodeGroup (w x y z : Char) : Option (List Nat) :=
  match value? w, value? x, value? y, value? z with
  | some w, some x, some y, some z =>
      some [w * 4 + x / 16, x % 16 * 16 + y / 4, y % 4 * 64 + z]
  | some w, some x, some y, none =>
      if z = '=' then some [w * 4 + x / 16, x % 16 * 16 + y / 4] else none
  | some w, some x, none, none =>
      if y = '=' ∧ z = '=' then some [w * 4 + x / 16] else none
  | _, _, _, _ => none

def decode : List Char → Option (List Nat)
  | [] => some []
  | w :: x :: y :: z :: rest =>
      match decodeGroup w x y z, decode rest with
      | some bytes, some later => some (bytes ++ later)
      | _, _ => none
  | _ => none

theorem value?_digit {value : Nat} (six : value < 64) :
    value? (digit value) = some value := by
  have all : ∀ value < 64, value? (digit value) = some value := by
    decide +kernel
  exact all value six

theorem value?_pad : value? '=' = none := by
  decide

theorem decodeGroup_one {a : Nat} (first : a < 256) :
    decodeGroup (digit (a / 4)) (digit (a % 4 * 16)) '=' '=' = some [a] := by
  have high := value?_digit (show a / 4 < 64 by omega)
  have low := value?_digit (show a % 4 * 16 < 64 by omega)
  have byte : a / 4 * 4 + a % 4 * 16 / 16 = a := by omega
  simp only [decodeGroup, high, low, value?_pad, and_self, if_true, byte]

theorem decodeGroup_two {a b : Nat} (first : a < 256) (second : b < 256) :
    decodeGroup (digit (a / 4)) (digit (a % 4 * 16 + b / 16))
      (digit (b % 16 * 4)) '=' = some [a, b] := by
  have high := value?_digit (show a / 4 < 64 by omega)
  have middle := value?_digit (show a % 4 * 16 + b / 16 < 64 by omega)
  have low := value?_digit (show b % 16 * 4 < 64 by omega)
  have byte : a / 4 * 4 + (a % 4 * 16 + b / 16) / 16 = a := by omega
  have byte' : (a % 4 * 16 + b / 16) % 16 * 16 + b % 16 * 4 / 4 = b := by
    omega
  simp only [decodeGroup, high, middle, low, value?_pad, if_true, byte, byte']

theorem decodeGroup_three {a b c : Nat} (first : a < 256) (second : b < 256)
    (third : c < 256) :
    decodeGroup (digit (a / 4)) (digit (a % 4 * 16 + b / 16))
      (digit (b % 16 * 4 + c / 64)) (digit (c % 64)) = some [a, b, c] := by
  have high := value?_digit (show a / 4 < 64 by omega)
  have middle := value?_digit (show a % 4 * 16 + b / 16 < 64 by omega)
  have low := value?_digit (show b % 16 * 4 + c / 64 < 64 by omega)
  have last := value?_digit (show c % 64 < 64 by omega)
  have byte : a / 4 * 4 + (a % 4 * 16 + b / 16) / 16 = a := by omega
  have byte' : (a % 4 * 16 + b / 16) % 16 * 16 + (b % 16 * 4 + c / 64) / 4 =
      b := by
    omega
  have byte'' : (b % 16 * 4 + c / 64) % 4 * 64 + c % 64 = c := by omega
  simp only [decodeGroup, high, middle, low, last, byte, byte', byte'']

theorem decode_encode {bytes : List Nat} (small : ∀ b ∈ bytes, b < 256) :
    decode (encode bytes) = some bytes := by
  induction bytes using encode.induct with
  | case1 => rfl
  | case2 a =>
      have group := decodeGroup_one (small a (by simp))
      simp only [encode, decode, group, List.append_nil]
  | case3 a b =>
      have group := decodeGroup_two (small a (by simp)) (small b (by simp))
      simp only [encode, decode, group, List.append_nil]
  | case4 a b c rest induction =>
      have group := decodeGroup_three (small a (by simp)) (small b (by simp))
        (small c (by simp))
      have later := induction (fun d member => small d (by simp [member]))
      simp only [encode, decode, group, later, List.cons_append,
        List.nil_append]

def IsBytes (text : String) : Prop :=
  ∀ c ∈ text.toList, c.toNat < 256

theorem isBytes_of_all {text : String}
    (all : text.toList.all (fun c => c.toNat < 256) = true) : IsBytes text :=
  fun c member => of_decide_eq_true (List.all_eq_true.mp all c member)

def encodeText (text : String) : String :=
  String.ofList (encode (text.toList.map Char.toNat))

def decodeText (text : String) : Option String :=
  (decode text.toList).map (fun bytes => String.ofList (bytes.map Char.ofNat))

theorem decodeText_encodeText {text : String} (bytes : IsBytes text) :
    decodeText (encodeText text) = some text := by
  have small : ∀ b ∈ text.toList.map Char.toNat, b < 256 := by
    intro b member
    obtain ⟨c, inText, rfl⟩ := List.mem_map.mp member
    exact bytes c inText
  rw [decodeText, encodeText, String.toList_ofList, decode_encode small,
    Option.map_some, List.map_map]
  have itself : Char.ofNat ∘ Char.toNat = id := by
    funext c
    exact Char.ofNat_toNat c
  rw [itself, List.map_id, String.ofList_toList]

end Fetchpp.Lib.Base64
